/-
When a request is too long for the sender.

The pump packs every number that is due into one request, and the sender reads 2048
bytes of it.  A mask covers a number and the 16 after it, so the length of the request
is set by how far the numbers are from each other: 501 masks still fit beside the
report, and 502 do not.  The walk over the datagram stops at a sub-packet that is cut,
so a request that is one mask too long is lost with everything it asks for.

`Scattered` says it of the tracked numbers, before the pump runs.  Packing takes
numbers greedily, and a greedy packing has as many masks as there are numbers no two of
which share one (`packMasks_pids`, `card_le_packMasks`).
-/
import Mathlib.Data.Finset.Card
import Rist.Proofs.Packet.Request
import Rist.Proofs.Nack.Slots
import Rist.Proofs.Receiver.Extended
import Rist.Proofs.Timers
import Rist.Transport.Receiver

namespace Rist

/-! ### How many masks -/

/-- Any two of the numbers are too far apart for one mask. -/
def Separated (w : Finset UInt16) : Prop := ∀ p ∈ w, ∀ q ∈ w, p < q → p.toNat + 17 ≤ q.toNat

namespace NackListBuilder

theorem packMasks_pids {l : List UInt16} (h : l.Pairwise (· < ·)) :
    ((packMasks l).map BitmaskNack.pid).Pairwise (fun p q => p.toNat + 17 ≤ q.toNat) ∧
      (packMasks l).map BitmaskNack.pid ⊆ l := by
  induction l using packMasks.induct with
  | case1 =>
      rw [packMasks]
      exact ⟨List.Pairwise.nil, List.nil_subset _⟩
  | case2 pid l ih =>
      obtain ⟨habove, hl⟩ := List.pairwise_cons.mp h
      obtain ⟨-, hsuffix, hfar⟩ := fillMask_spec 0 hl habove fun x _ => Nat.two_pow_pos _
      obtain ⟨hapart, hsub⟩ := ih (hl.sublist hsuffix.sublist)
      rw [packMasks, List.map_cons]
      refine ⟨List.pairwise_cons.mpr ⟨fun q hq => hfar q (hsub hq), hapart⟩, ?_⟩
      exact List.cons_subset_cons pid fun q hq => hsuffix.subset (hsub hq)

/-- What a mask takes is near its number. -/
theorem near_or_mem_fillMask {pid : UInt16} {l : List UInt16} :
    ∀ (blp : UInt16), (∀ x ∈ l, pid < x) → ∀ x ∈ l,
      x.toNat < pid.toNat + 17 ∨ x ∈ (fillMask pid blp l).2 := by
  induction l with
  | nil =>
      intro blp _ x hx
      exact absurd hx List.not_mem_nil
  | cons seq l ih =>
      intro blp habove x hx
      have hseq := habove seq List.mem_cons_self
      have hdiff := toNat_sub_of_lt hseq
      rw [fillMask]
      split
      · rename_i hfits
        rcases List.mem_cons.mp hx with rfl | hx
        · have hle : (x - pid).toNat ≤ 16 := UInt16.le_iff_toNat_le.mp hfits.2
          rw [UInt16.lt_iff_toNat_lt] at hseq
          exact Or.inl (by omega)
        · exact ih _ (fun y hy => habove y (List.mem_cons_of_mem seq hy)) x hx
      · exact Or.inr hx

/-- No mask names two numbers of a separated set. -/
theorem card_le_packMasks {l : List UInt16} (h : l.Pairwise (· < ·)) :
    ∀ w : Finset UInt16, Separated w → (∀ q ∈ w, q ∈ l) → w.card ≤ (packMasks l).length := by
  induction l using packMasks.induct with
  | case1 =>
      intro w _ hsub
      have hempty : w = ∅ := Finset.eq_empty_of_forall_notMem fun q hq => List.not_mem_nil (hsub q hq)
      rw [hempty, Finset.card_empty]
      exact Nat.zero_le _
  | case2 pid l ih =>
      intro w hsep hsub
      obtain ⟨habove, hl⟩ := List.pairwise_cons.mp h
      obtain ⟨-, hsuffix, -⟩ := fillMask_spec 0 hl habove fun x _ => Nat.two_pow_pos _
      have hfrom : ∀ q ∈ w, pid.toNat ≤ q.toNat := by
        intro q hq
        rcases List.mem_cons.mp (hsub q hq) with rfl | hq
        · exact Nat.le_refl _
        · exact Nat.le_of_lt (UInt16.lt_iff_toNat_lt.mp (habove q hq))
      -- at most one number of the set is in reach of the first mask
      let near := w.filter fun q => q.toNat < pid.toNat + 17
      let far := w.filter fun q => ¬q.toNat < pid.toNat + 17
      have hnear : near.card ≤ 1 := by
        refine Finset.card_le_one.mpr fun p hp q hq => ?_
        obtain ⟨hp, hpnear⟩ := Finset.mem_filter.mp hp
        obtain ⟨hq, hqnear⟩ := Finset.mem_filter.mp hq
        have hpfrom := hfrom p hp
        have hqfrom := hfrom q hq
        rcases Nat.lt_trichotomy p.toNat q.toNat with hlt | heq | hlt
        · have := hsep p hp q hq (UInt16.lt_iff_toNat_lt.mpr hlt)
          omega
        · exact UInt16.toNat_inj.mp heq
        · have := hsep q hq p hp (UInt16.lt_iff_toNat_lt.mpr hlt)
          omega
      have hrest := ih (hl.sublist hsuffix.sublist) far ?_ ?_
      · have hsplit : near.card + far.card = w.card :=
          Finset.card_filter_add_card_filter_not fun q : UInt16 => q.toNat < pid.toNat + 17
        rw [packMasks, List.length_cons]
        omega
      · exact fun p hp q hq => hsep p (Finset.mem_of_mem_filter p hp) q (Finset.mem_of_mem_filter q hq)
      · intro q hq
        obtain ⟨hq, hqfar⟩ := Finset.mem_filter.mp hq
        rcases List.mem_cons.mp (hsub q hq) with rfl | hmem
        · exact absurd (by omega) hqfar
        · exact (near_or_mem_fillMask 0 habove q hmem).resolve_left hqfar

end NackListBuilder

/-! ### What the sender reads -/

namespace RtcpCompound

open Frames

/-- A last sub-packet that is cut is not read. -/
theorem parse_take_of_cut {first last : RtcpPacket} (hfirst : first.Encodable)
    (hlast : last.Encodable) {m : Nat} (hhead : 4 ≤ m) (hcut : m < last.serialize.length) :
    parse (first.serialize ++ last.serialize.take m) = .ok [first] := by
  obtain ⟨_, _, _, hfirst⟩ := hfirst.encodes
  obtain ⟨_, _, _, hlast⟩ := hlast.encodes
  have hlen : (last.serialize.take m).length = m := List.length_take_of_le (Nat.le_of_lt hcut)
  have hrest : format.head ≤ (last.serialize.take m).length := hlen.symm ▸ hhead
  have hsize : format.size (last.serialize.take m) = .ok last.serialize.length := by
    rw [← format.size_append (last.serialize.drop m) hrest, List.take_append_drop]
    exact (isFrame_iff.mpr hlast.wellFramed).size
  have hreads := parse_reads (first.serialize ++ last.serialize.take m)
  rw [show maxRtcpSubPackets = 62 + 1 + 1 from rfl, cut_frame (isFrame_iff.mpr hfirst.wellFramed),
    cut_truncated hrest hsize (hlen.symm ▸ hcut)] at hreads
  obtain ⟨pkts, hparse, hpkts⟩ := hreads
  have hone : List.Forall₂ IsSubPacket [first.serialize] [first] :=
    List.Forall₂.cons hfirst.isSubPacket List.Forall₂.nil
  rw [hparse, List.right_unique_forall₂' isSubPacket_rightUnique hpkts hone]

end RtcpCompound

theorem NackPacket.length_serialize {request : NackPacket} (h : request.entries.count ≤ 65533) :
    (RtcpPacket.nack request).serialize.length = 12 + 4 * request.entries.count := by
  rw [(NackPacket.encodes h).length, List.length_append, List.length_append, length_putU32,
    length_putU32, NackEntries.length_wire]
  omega

/-- A report on a stream that has begun has one block, and it can be written. -/
theorem RtcpReceiverState.generateRr_block {s : RtcpReceiverState}
    (h : s.firstPacketReceived = true) (ssrc : UInt32) (now : Instant) :
    ∃ b : ReportBlock, b.Fits ∧ (s.generateRr ssrc now).2 = ⟨ssrc, [b]⟩ := by
  unfold generateRr
  rw [if_neg (by simp [h])]
  refine ⟨_, ⟨?_, ?_⟩, rfl⟩
  · rw [toInt_cumulativeLost]
    exact le_max_left _ _
  · rw [toInt_cumulativeLost]
    exact max_le (by decide) (min_le_right _ _)

section

variable (ssrc : UInt32) {b : ReportBlock} (hfits : b.Fits)
include hfits

theorem ReceiverReport.encodable_block : (RtcpPacket.receiverReport ⟨ssrc, [b]⟩).Encodable := by
  refine ⟨by simp, ?_⟩
  intro b' hb'
  rw [List.mem_singleton.mp hb']
  exact hfits

theorem ReceiverReport.length_block :
    (RtcpPacket.receiverReport ⟨ssrc, [b]⟩).serialize.length = 32 := by
  obtain ⟨hcount, hfits⟩ := ReceiverReport.encodable_block ssrc hfits
  rw [(ReceiverReport.encodes hcount hfits).length, List.length_append, length_putU32,
    List.flatMap_singleton, ReportBlock.length_serialize]

end

/-- The datagram, cut to the sender's buffer, is read with a request for exactly `l`. -/
def Reaches (c : List RtcpPacket) (l : List UInt16) : Prop :=
  ∃ pkts, RtcpCompound.parse ((RtcpCompound.serialize c).take maxUdpRecv) = .ok pkts ∧
    ∃ request, RtcpPacket.nack request ∈ pkts ∧ request.entries.lostSeqs = l

/-- **501 masks fit beside the report.** -/
theorem reaches_iff_length {l : List UInt16} (hl : l.Pairwise (· < ·)) {ssrc : UInt32}
    {b : ReportBlock} (hfits : b.Fits) (builder : NackListBuilder) :
    Reaches [.receiverReport ⟨ssrc, [b]⟩, .nack (builder.buildBitmask l)] l ↔
      (NackListBuilder.packMasks l).length ≤ 501 := by
  have hmasks := NackListBuilder.packMasks_length hl 0 fun x _ => Nat.zero_le _
  have hcount : (builder.buildBitmask l).entries.count = (NackListBuilder.packMasks l).length := rfl
  have hnack : (RtcpPacket.nack (builder.buildBitmask l)).Encodable := by
    show (NackListBuilder.packMasks l).length ≤ 65533
    omega
  have hrr := ReceiverReport.encodable_block ssrc hfits
  have hlenNack := NackPacket.length_serialize hnack
  have hlenRr := ReceiverReport.length_block ssrc hfits
  have hbytes : RtcpCompound.serialize
      [.receiverReport ⟨ssrc, [b]⟩, .nack (builder.buildBitmask l)]
      = (RtcpPacket.receiverReport ⟨ssrc, [b]⟩).serialize
        ++ (RtcpPacket.nack (builder.buildBitmask l)).serialize := by
    simp only [RtcpCompound.serialize, List.flatMap_cons, List.flatMap_nil, List.append_nil]
  constructor
  · rintro ⟨pkts, hparse, request, hmem, -⟩
    by_contra hlong
    -- the report takes 32 bytes, and the request gets what is left of the buffer
    have hcut := RtcpCompound.parse_take_of_cut hrr hnack (show 4 ≤ 2016 by decide) (by omega)
    rw [hbytes, List.take_append, hlenRr, List.take_of_length_le (by rw [hlenRr]; decide)] at hparse
    rw [show maxUdpRecv - 32 = 2016 from rfl, hcut] at hparse
    rw [← Except.ok.inj hparse] at hmem
    cases List.mem_singleton.mp hmem
  · intro hshort
    have hwhole : (RtcpCompound.serialize
        [.receiverReport ⟨ssrc, [b]⟩, .nack (builder.buildBitmask l)]).length ≤ maxUdpRecv := by
      rw [hbytes, List.length_append, hlenRr, hlenNack, hcount]
      unfold maxUdpRecv
      omega
    refine ⟨[.receiverReport ⟨ssrc, [b]⟩, .nack (builder.buildBitmask l)], ?_,
      builder.buildBitmask l, by simp, NackListBuilder.packMasks_lostSeqs hl⟩
    rw [List.take_of_length_le hwhole]
    refine hnack.survives [.receiverReport ⟨ssrc, [b]⟩] [] ?_ (show 2 ≤ 64 by decide)
    intro p hp
    rw [List.mem_singleton.mp hp]
    exact hrr

/-! ### What the pump asks for -/

namespace NackScheduler

variable {s : NackScheduler}

/-- There are `n` tracked numbers that are due at `now`, no two of them in reach of one
mask. -/
def Scattered (s : NackScheduler) (now : Instant) (n : Nat) : Prop :=
  ∃ w : Finset UInt16, w.card = n ∧ Separated w ∧
    ∀ q ∈ w, s.Open q ∧ requested s.maxRetries now (s.slot q) = true

/-- **A request is as long as the numbers are scattered.** -/
theorem scattered_iff_length {now : Instant} {l : List UInt16} (hsorted : l.Pairwise (· < ·))
    (hmem : ∀ q, q ∈ l ↔ s.Open q ∧ requested s.maxRetries now (s.slot q) = true) (n : Nat) :
    Scattered s now n ↔ n ≤ (NackListBuilder.packMasks l).length := by
  constructor
  · rintro ⟨w, rfl, hsep, hdue⟩
    exact NackListBuilder.card_le_packMasks hsorted w hsep fun q hq => (hmem q).mpr (hdue q hq)
  · intro hlen
    obtain ⟨hapart, hsub⟩ := NackListBuilder.packMasks_pids hsorted
    let pids := ((NackListBuilder.packMasks l).map BitmaskNack.pid).take n
    have hpids : pids.Pairwise fun p q => p.toNat + 17 ≤ q.toNat :=
      hapart.sublist (List.take_sublist _ _)
    have hnodup : pids.Nodup := hpids.imp fun hle heq => by
      rw [heq] at hle
      omega
    refine ⟨pids.toFinset, ?_, ?_, ?_⟩
    · rw [List.toFinset_card_of_nodup hnodup, List.length_take_of_le]
      rwa [List.length_map]
    · intro p hp q hq
      refine List.Pairwise.forall_of_forall_of_flip (R := fun p q : UInt16 =>
        p < q → p.toNat + 17 ≤ q.toNat) ?_ ?_ ?_ (List.mem_toFinset.mp hp) (List.mem_toFinset.mp hq)
      · intro x _ hlt
        exact absurd hlt (UInt16.lt_irrefl x)
      · refine hpids.imp ?_
        intro p q hle _
        exact hle
      · refine hpids.imp fun hle hlt => ?_
        rw [UInt16.lt_iff_toNat_lt] at hlt
        omega
    · intro q hq
      exact (hmem q).mp (hsub (List.mem_of_mem_take (List.mem_toFinset.mp hq)))

end NackScheduler

namespace ReceiverState

open NackScheduler

/-- What the pump sends when something is due. -/
theorem pumpArm_sent (ssrc : UInt32) {s : ReceiverState} {rtcpDest : SocketAddr}
    (hdest : s.senderRtcpAddr = some rtcpDest) {now : Instant}
    (hpending : (s.media.nack.getPendingNacks now s.rtt.srtt).2 ≠ []) :
    (s.pumpArm ssrc now).2 = [(rtcpDest, [.receiverReport (s.media.rtcp.generateRr ssrc now).2,
      .nack (nackFor ssrc s (s.media.nack.getPendingNacks now s.rtt.srtt).2)])] := by
  rcases pumpArm_cases ssrc s now with ⟨hnone, -⟩ | ⟨hnil, -⟩ | ⟨dest, hsome, -, harm⟩
  · exact absurd (hnone.symm.trans hdest) (by simp)
  · exact absurd hnil hpending
  · rw [harm, Option.some.inj (hsome.symm.trans hdest)]

theorem pump_reaches_of_owned (ssrc : UInt32) {s : ReceiverState}
    (hb : s.media.nack.slots.bits = ringBits) (howned : s.media.nack.Owned)
    {rtcpDest : SocketAddr} (hdest : s.senderRtcpAddr = some rtcpDest)
    (hbegun : s.media.rtcp.firstPacketReceived = true) {now : Instant}
    (hpending : (s.media.nack.getPendingNacks now s.rtt.srtt).2 ≠ []) :
    (∃ c, (s.pumpArm ssrc now).2 = [(rtcpDest, c)] ∧
        Reaches c (s.media.nack.getPendingNacks now s.rtt.srtt).2) ↔
      ¬Scattered s.media.nack now 502 := by
  have hpoll := (getPendingNacks_cases hb howned now s.rtt.srtt).resolve_left fun hnone =>
    hpending (by rw [hnone])
  obtain ⟨b, hfits, hrr⟩ := RtcpReceiverState.generateRr_block hbegun ssrc now
  rw [scattered_iff_length hpoll.sorted hpoll.returned_iff, Nat.not_le, Nat.lt_succ_iff,
    pumpArm_sent ssrc hdest hpending, hrr]
  unfold nackFor
  rw [← reaches_iff_length hpoll.sorted hfits]
  constructor
  · rintro ⟨c, hsent, hreaches⟩
    cases hsent
    exact hreaches
  · intro hreaches
    exact ⟨_, rfl, hreaches⟩

/-- **When the sender can read a request**: as long as no 502 of the numbers that are due
are scattered.  The scheduler may be in any state that it can come to. -/
theorem pump_reaches_iff (ssrc : UInt32) {s : ReceiverState} {maxRetries : UInt32}
    {baseDelay : Duration} {start : Instant} {ops : List NackOp}
    (hnack : s.media.nack = Run.final step (NackScheduler.new maxRetries baseDelay start) ops)
    {rtcpDest : SocketAddr} (hdest : s.senderRtcpAddr = some rtcpDest)
    (hbegun : s.media.rtcp.firstPacketReceived = true) {now : Instant}
    (hpending : (s.media.nack.getPendingNacks now s.rtt.srtt).2 ≠ []) :
    (∃ c, (s.pumpArm ssrc now).2 = [(rtcpDest, c)] ∧
        Reaches c (s.media.nack.getPendingNacks now s.rtt.srtt).2) ↔
      ¬Scattered s.media.nack now 502 := by
  obtain ⟨hb, howned⟩ := owned_run maxRetries baseDelay start ops
  rw [← hnack] at hb howned
  exact pump_reaches_of_owned ssrc hb howned hdest hbegun hpending

end ReceiverState

/-! ### A stream that loses one packet in 17 -/

namespace NackScheduler

variable {s : NackScheduler} {n : Nat}

/-- The packets of `n` blocks of 17, each without its first, behind packet 65535. -/
def oneIn17 : Nat → List NackOp
  | 0 => [.received 65535 0]
  | n + 1 => oneIn17 n ++ .received (UInt16.ofNat (17 * n) + 1) 0 ::
      (List.range 15).map fun j => .received (UInt16.ofNat (17 * n) + 2 + UInt16.ofNat j) 0

/-- The scheduler tracks the first number of `n` blocks, and no other. -/
structure Holes (s : NackScheduler) (n : Nat) : Prop where
  bits : s.slots.bits = ringBits
  expectedSeq : s.expectedSeq = some (UInt16.ofNat (17 * n))
  baseDelay : s.baseDelay = minNackRetryDelay
  maxRetries : s.maxRetries = 10
  count : s.activeCount.toNat = n
  tracked : ∀ k < n, s.slot (UInt16.ofNat (17 * k))
    = ⟨UInt16.ofNat (17 * k), true, minNackRetryDelay, 0⟩
  only : ∀ q, (s.slot q).active = true → ∃ k < n, (s.slot q).seq = UInt16.ofNat (17 * k)

/-- The expected packet moves the front and nothing else. -/
theorem onPacketReceived_expected {e : UInt16} (h : s.expectedSeq = some e) (now : Instant) :
    (s.onPacketReceived e now).1 = { s with expectedSeq := some (e + 1) } := by
  unfold onPacketReceived
  simp only [h, UInt16.sub_self]
  rfl

theorem final_in_order (now : Instant) : ∀ (m : Nat) {e : UInt16} {s : NackScheduler},
    s.expectedSeq = some e →
      Run.final step s ((List.range m).map fun j => .received (e + UInt16.ofNat j) now)
        = { s with expectedSeq := some (e + UInt16.ofNat m) } := by
  intro m
  induction m with
  | zero =>
      intro e s h
      show s = { s with expectedSeq := some (e + 0) }
      rw [UInt16.add_zero, ← h]
  | succ m ih =>
      intro e s h
      rw [List.range_succ, List.map_append, List.map_singleton, Run.final, List.foldl_append]
      show step (Run.final step s _) (.received (e + UInt16.ofNat m) now) = _
      rw [ih h]
      show (onPacketReceived _ _ _).1 = _
      rw [onPacketReceived_expected rfl, UInt16.add_assoc, UInt16.ofNat_add]
      rfl

/-- The packet behind a hole. -/
theorem onPacketReceived_hole {e : UInt16} (h : s.expectedSeq = some e)
    (hfree : claimable (s.slot e) e = true) (now : Instant) :
    (s.onPacketReceived (e + 1) now).1
      = { s with slots := s.slots.set e.toNat ⟨e, true, now + s.baseDelay, 0⟩
                 activeCount := s.activeCount + 1
                 expectedSeq := some (e + 2) } := by
  have hone : e + 1 - e = 1 := by rw [UInt16.add_comm, UInt16.add_sub_cancel]
  have htwo : e + 1 + 1 = e + 2 := by rw [UInt16.add_assoc]; rfl
  have htrack : s.trackGaps e now 1
      = ({ s with slots := s.slots.set e.toNat ⟨e, true, now + s.baseDelay, 0⟩
                  activeCount := s.activeCount + 1 }, [e]) := by
    have hzero : e + UInt16.ofNat 0 = e := UInt16.add_zero e
    simp only [trackGaps, hzero]
    rw [if_pos hfree]
    rfl
  unfold onPacketReceived
  simp only [h, hone, htwo]
  rw [if_pos (by decide), if_pos (by decide), show (1 : UInt16).toNat = 1 from rfl, htrack]

theorem toNat_hole (hn : n ≤ 502) : (UInt16.ofNat (17 * n)).toNat = 17 * n := by
  rw [UInt16.toNat_ofNat', Nat.mod_eq_of_lt (by omega)]

/-- The next hole is not tracked yet. -/
theorem Holes.claimable (h : Holes s n) (hn : n < 502) :
    claimable (s.slot (UInt16.ofNat (17 * n))) (UInt16.ofNat (17 * n)) = true := by
  unfold NackScheduler.claimable
  cases hact : (s.slot (UInt16.ofNat (17 * n))).active with
  | false => rfl
  | true =>
      obtain ⟨k, hk, hseq⟩ := h.only _ hact
      have hne : UInt16.ofNat (17 * k) ≠ UInt16.ofNat (17 * n) := by
        intro heq
        have hnat := congrArg UInt16.toNat heq
        rw [toNat_hole (by omega), toNat_hole (by omega)] at hnat
        omega
      rw [hseq]
      exact decide_eq_true hne

/-- A slot of the ring with the next hole is the one written, or what it was. -/
theorem Holes.get_set (h : Holes s n) (hn : n < 502) (q : UInt16) :
    (s.slots.set (UInt16.ofNat (17 * n)).toNat
        ⟨UInt16.ofNat (17 * n), true, 0 + s.baseDelay, 0⟩).get q.toNat
      = if 17 * n % 4096 = q.toNat % 4096 then
          ⟨UInt16.ofNat (17 * n), true, minNackRetryDelay, 0⟩
        else s.slot q := by
  rw [SlotRing.get_set, capacity_eq h.bits, toNat_hole (Nat.le_of_lt hn), h.baseDelay,
    Nat.zero_add]
  rfl

theorem Holes.block (h : Holes s n) (hn : n < 502) :
    Holes (Run.final step s (.received (UInt16.ofNat (17 * n) + 1) 0 ::
      (List.range 15).map fun j => .received (UInt16.ofNat (17 * n) + 2 + UInt16.ofNat j) 0))
      (n + 1) := by
  have hstep : s.step (.received (UInt16.ofNat (17 * n) + 1) 0) = _ :=
    onPacketReceived_hole h.expectedSeq (h.claimable hn) 0
  rw [Run.final_cons, hstep, final_in_order 0 15 rfl]
  refine ⟨h.bits, ?_, h.baseDelay, h.maxRetries, ?_, ?_, ?_⟩
  · show some (UInt16.ofNat (17 * n) + 2 + UInt16.ofNat 15) = _
    rw [UInt16.add_assoc, Nat.mul_succ, UInt16.ofNat_add]
    rfl
  · show (s.activeCount + 1).toNat = n + 1
    rw [UInt32.toNat_add, h.count]
    exact Nat.mod_eq_of_lt (by simp; omega)
  · intro k hk
    show SlotRing.get _ _ = _
    rw [h.get_set hn, toNat_hole (by omega)]
    by_cases hkn : k = n
    · rw [hkn, if_pos rfl]
    · rw [if_neg (by omega)]
      exact h.tracked k (by omega)
  · intro q
    show NackSlot.active (SlotRing.get _ _) = true →
      ∃ k < n + 1, NackSlot.seq (SlotRing.get _ _) = _
    rw [h.get_set hn]
    split
    · intro _
      exact ⟨n, Nat.lt_succ_self n, rfl⟩
    · intro hact
      obtain ⟨k, hk, hseq⟩ := h.only q hact
      exact ⟨k, Nat.lt_succ_of_lt hk, hseq⟩

theorem holes_oneIn17 (hn : n ≤ 502) :
    Holes (Run.final step (NackScheduler.new 10 minNackRetryDelay 0) (oneIn17 n)) n := by
  induction n with
  | zero =>
      refine ⟨rfl, rfl, rfl, rfl, rfl, fun k hk => absurd hk (Nat.not_lt_zero k), fun q hact => ?_⟩
      have hoff := new_inactive 10 minNackRetryDelay 0 q.toNat
      exact absurd (hoff.symm.trans hact) (by decide)
  | succ n ih =>
      rw [oneIn17, Run.final, List.foldl_append]
      exact (ih (by omega)).block (by omega)

theorem Holes.open_iff (h : Holes s n) (q : UInt16) :
    s.Open q ↔ ∃ k < n, q = UInt16.ofNat (17 * k) := by
  constructor
  · rintro ⟨hact, hseq⟩
    obtain ⟨k, hk, hq⟩ := h.only q hact
    exact ⟨k, hk, hseq.symm.trans hq⟩
  · rintro ⟨k, hk, rfl⟩
    unfold Open
    rw [h.tracked k hk]
    exact ⟨rfl, rfl⟩

/-- Every hole is due after the base delay. -/
theorem Holes.requested (h : Holes s n) {k : Nat} (hk : k < n) :
    requested s.maxRetries minNackRetryDelay (s.slot (UInt16.ofNat (17 * k))) = true := by
  rw [h.tracked k hk, h.maxRetries]
  exact (requested_iff rfl).mpr ⟨Nat.le_refl _, show 0 < 10 by decide⟩

theorem Holes.pending (h : Holes s n) (howned : s.Owned) (hn : 0 < n) (rtt : Option Duration) :
    (s.getPendingNacks minNackRetryDelay rtt).2 ≠ [] := by
  have hcount : s.activeCount ≠ 0 := by
    intro hzero
    have := h.count
    rw [hzero] at this
    exact absurd this (Nat.ne_of_lt hn)
  unfold getPendingNacks
  rw [if_neg hcount]
  have hpoll := scan_polled h.bits howned minNackRetryDelay (rtt.getD s.baseDelay)
  refine List.ne_nil_of_mem ((hpoll.returned_iff (UInt16.ofNat (17 * 0))).mpr ?_)
  exact ⟨(h.open_iff _).mpr ⟨0, hn, rfl⟩, h.requested hn⟩

/-- The holes are scattered: 17 numbers apart. -/
theorem Holes.scattered (h : Holes s n) (hn : n ≤ 502) : Scattered s minNackRetryDelay n := by
  have hinj : Set.InjOn (fun k => UInt16.ofNat (17 * k)) (Finset.range n) := by
    intro j hj k hk heq
    have hnat := congrArg UInt16.toNat heq
    simp only [Finset.coe_range, Set.mem_Iio] at hj hk
    simp only [toNat_hole (n := j) (by omega), toNat_hole (n := k) (by omega)] at hnat
    omega
  refine ⟨(Finset.range n).image fun k => UInt16.ofNat (17 * k), ?_, ?_, ?_⟩
  · rw [Finset.card_image_of_injOn hinj, Finset.card_range]
  · intro p hp q hq hlt
    obtain ⟨j, hj, rfl⟩ := Finset.mem_image.mp hp
    obtain ⟨k, hk, rfl⟩ := Finset.mem_image.mp hq
    rw [Finset.mem_range] at hj hk
    rw [UInt16.lt_iff_toNat_lt] at hlt
    rw [toNat_hole (by omega), toNat_hole (by omega)] at hlt ⊢
    omega
  · intro q hq
    obtain ⟨k, hk, rfl⟩ := Finset.mem_image.mp hq
    rw [Finset.mem_range] at hk
    exact ⟨(h.open_iff _).mpr ⟨k, hk, rfl⟩, h.requested hk⟩

end NackScheduler

namespace ReceiverState

open NackScheduler

/-- A receiver whose pump has not run during `n` blocks of 17. -/
def lagging (n : Nat) : ReceiverState :=
  { ReceiverState.new 50000000 10 100000000 0 with
    media.rtcp.firstPacketReceived := true
    media.nack := Run.final step (NackScheduler.new 10 minNackRetryDelay 0) (oneIn17 n)
    senderRtcpAddr := some (.v4 0x0a000001 5001) }

theorem lagging_nack (n : Nat) : (lagging n).media.nack
    = Run.final step (NackScheduler.new 10 minNackRetryDelay 0) (oneIn17 n) := rfl

theorem lagging_pending {n : Nat} (hpos : 0 < n) (hn : n ≤ 502) :
    ((lagging n).media.nack.getPendingNacks minNackRetryDelay none).2 ≠ [] := by
  obtain ⟨-, howned⟩ := owned_run 10 minNackRetryDelay 0 (oneIn17 n)
  exact (holes_oneIn17 hn).pending howned hpos none

/-- Only the holes are due. -/
theorem not_scattered_lagging {n : Nat} (hn : n < 502) :
    ¬Scattered (lagging n).media.nack minNackRetryDelay 502 := by
  rintro ⟨w, hcard, -, hdue⟩
  have hsub : w ⊆ (Finset.range n).image fun k => UInt16.ofNat (17 * k) := by
    intro q hq
    obtain ⟨k, hk, rfl⟩ := ((holes_oneIn17 (Nat.le_of_lt hn)).open_iff q).mp (hdue q hq).1
    exact Finset.mem_image_of_mem _ (Finset.mem_range.mpr hk)
  have hle := Nat.le_trans (Finset.card_le_card hsub) Finset.card_image_le
  rw [hcard, Finset.card_range] at hle
  omega

theorem lagging_unread {n : Nat} (hn : n = 502) :
    ¬∃ c, ((lagging n).pumpArm 4 minNackRetryDelay).2 = [(.v4 0x0a000001 5001, c)] ∧
      Reaches c ((lagging n).media.nack.getPendingNacks minNackRetryDelay none).2 := by
  obtain ⟨hb, howned⟩ := owned_run 10 minNackRetryDelay 0 (oneIn17 n)
  have hscattered := (holes_oneIn17 (Nat.le_of_eq hn)).scattered (Nat.le_of_eq hn)
  have hiff := pump_reaches_of_owned 4 (s := lagging n) hb howned rfl rfl
    (lagging_pending (by omega) (Nat.le_of_eq hn))
  rw [hn] at hscattered
  intro hreaches
  exact hiff.mp hreaches (by rw [lagging_nack, hn]; exact hscattered)

/-- One number is due, and the request for it is read. -/
theorem pump_reaches_iff_one_hole :
    ∃ c, ((lagging 1).pumpArm 4 minNackRetryDelay).2 = [(.v4 0x0a000001 5001, c)] ∧
      Reaches c ((lagging 1).media.nack.getPendingNacks minNackRetryDelay none).2 :=
  (pump_reaches_iff 4 (lagging_nack 1) rfl rfl (lagging_pending Nat.one_pos (by decide))).mpr
    (not_scattered_lagging (by decide))

/-- 502 numbers are due, 17 apart, and nothing of the request for them is read. -/
theorem scattered_request_is_lost :
    (lagging 502).media.nack
      = Run.final step (NackScheduler.new 10 minNackRetryDelay 0) (oneIn17 502) ∧
    ((lagging 502).media.nack.getPendingNacks minNackRetryDelay none).2 ≠ [] ∧
    ¬∃ c, ((lagging 502).pumpArm 4 minNackRetryDelay).2 = [(.v4 0x0a000001 5001, c)] ∧
      Reaches c ((lagging 502).media.nack.getPendingNacks minNackRetryDelay none).2 :=
  ⟨lagging_nack 502, lagging_pending (by decide) (by decide), lagging_unread rfl⟩

end ReceiverState

end Rist
