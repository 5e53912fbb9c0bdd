/-
A list of lost numbers survives every way of asking for it.

Both packers are greedy: an entry takes numbers off the front of the list for as long
as it can.  The invariant of the inner loop is that the numbers of the entry and the
numbers still to come are the list (`fillMask_spec`, `extendRun_spec`).  What the inner
loop leaves starts past a gap, so there are never more entries than fit a packet.

Numbers that strictly increase do not wrap inside an entry, which is why no addition
overflows.
-/
import Rist.Proofs.Packet.RoundTrip
import Rist.Transport.Sender

namespace Rist

/-! ### Masks -/

theorem toNat_bit {i : Nat} (hi : i < 16) : (1 <<< UInt16.ofNat i : UInt16).toNat = 2 ^ i := by
  have hall : ∀ i < 16, (1 <<< UInt16.ofNat i : UInt16).toNat = 2 ^ i := by decide
  exact hall i hi

theorem and_bit_ne_zero (blp : UInt16) {i : Nat} (hi : i < 16) :
    blp &&& (1 <<< UInt16.ofNat i) ≠ 0 ↔ blp.toNat.testBit i = true := by
  rw [ne_eq, ← UInt16.toNat_inj, UInt16.toNat_and, toNat_bit hi, Nat.and_two_pow]
  simp

def BitmaskNack.named (pid blp : UInt16) (i : Nat) : Option UInt16 :=
  if blp.toNat.testBit i = true then some (pid + UInt16.ofNat (i + 1)) else none

theorem BitmaskNack.lostSeqs_eq (pid blp : UInt16) :
    BitmaskNack.lostSeqs ⟨pid, blp⟩ = pid :: (List.range 16).filterMap (named pid blp) := by
  unfold BitmaskNack.lostSeqs
  simp only [List.cons.injEq, true_and]
  apply List.filterMap_congr
  intro i hi
  unfold named
  have := and_bit_ne_zero blp (List.mem_range.mp hi)
  simp only [this]

theorem filterMap_range_of_none {α : Type} {f : Nat → Option α} {k n : Nat} (hkn : k ≤ n)
    (h : ∀ i, k ≤ i → f i = none) : (List.range n).filterMap f = (List.range k).filterMap f := by
  obtain ⟨m, rfl⟩ := Nat.exists_eq_add_of_le hkn
  have hrest : (List.range m).filterMap (f ∘ fun x => k + x) = [] := by
    rw [List.filterMap_eq_nil_iff]
    intro i _
    exact h (k + i) (Nat.le_add_right k i)
  rw [List.range_add, List.filterMap_append, List.filterMap_map, hrest, List.append_nil]

/-- One more bit above the others is one more number at the end. -/
theorem BitmaskNack.lostSeqs_or (pid : UInt16) {blp : UInt16} {k : Nat} (hk : k < 16)
    (hblp : blp.toNat < 2 ^ k) :
    BitmaskNack.lostSeqs ⟨pid, blp ||| (1 <<< UInt16.ofNat k)⟩
      = BitmaskNack.lostSeqs ⟨pid, blp⟩ ++ [pid + UInt16.ofNat (k + 1)] := by
  have hbit : ∀ i, (blp ||| (1 <<< UInt16.ofNat k)).toNat.testBit i
      = (blp.toNat.testBit i || decide (k = i)) := by
    intro i
    rw [UInt16.toNat_or, toNat_bit hk, Nat.testBit_or, Nat.testBit_two_pow]
  have hhigh : ∀ i, k ≤ i → blp.toNat.testBit i = false := by
    intro i hi
    exact Nat.testBit_lt_two_pow (Nat.lt_of_lt_of_le hblp (Nat.pow_le_pow_right (by decide) hi))
  have hold : ∀ i, k ≤ i → named pid blp i = none := by
    intro i hi
    unfold named
    rw [hhigh i hi, if_neg (by decide)]
  have hnew : ∀ i, k + 1 ≤ i → named pid (blp ||| (1 <<< UInt16.ofNat k)) i = none := by
    intro i hi
    unfold named
    rw [hbit, hhigh i (by omega), Bool.false_or, if_neg (by simp; omega)]
  have hlow : (List.range k).filterMap (named pid (blp ||| (1 <<< UInt16.ofNat k)))
      = (List.range k).filterMap (named pid blp) := by
    apply List.filterMap_congr
    intro i hi
    have hne : k ≠ i := by
      have := List.mem_range.mp hi
      omega
    unfold named
    rw [hbit, decide_eq_false hne, Bool.or_false]
  have htop : named pid (blp ||| (1 <<< UInt16.ofNat k)) k = some (pid + UInt16.ofNat (k + 1)) := by
    unfold named
    rw [hbit, decide_eq_true rfl, Bool.or_true, if_pos rfl]
  rw [lostSeqs_eq, lostSeqs_eq, filterMap_range_of_none (Nat.succ_le_of_lt hk) hnew,
    filterMap_range_of_none (Nat.le_of_lt hk) hold, List.range_succ, List.filterMap_append, hlow,
    List.filterMap_cons_some htop]
  rfl

theorem BitmaskNack.lostSeqs_zero (pid : UInt16) : BitmaskNack.lostSeqs ⟨pid, 0⟩ = [pid] := by
  rw [lostSeqs_eq, filterMap_range_of_none (Nat.zero_le 16)]
  · rfl
  · intro i _
    unfold named
    simp

theorem toNat_sub_of_lt {x y : UInt16} (h : x < y) : (y - x).toNat = y.toNat - x.toNat :=
  UInt16.toNat_sub_of_le _ _ (Nat.le_of_lt h)

namespace NackListBuilder

/-- **What a mask takes.**  The numbers of the entry and the numbers left are the list,
and what is left is out of the mask's reach. -/
theorem fillMask_spec {pid : UInt16} {l : List UInt16} :
    ∀ (blp : UInt16), l.Pairwise (· < ·) → (∀ x ∈ l, pid < x) →
      (∀ x ∈ l, blp.toNat < 2 ^ (x.toNat - pid.toNat - 1)) →
      BitmaskNack.lostSeqs ⟨pid, (fillMask pid blp l).1⟩ ++ (fillMask pid blp l).2
          = BitmaskNack.lostSeqs ⟨pid, blp⟩ ++ l ∧
        (fillMask pid blp l).2 <:+ l ∧
        ∀ x ∈ (fillMask pid blp l).2, pid.toNat + 17 ≤ x.toNat := by
  induction l with
  | nil =>
      intro blp _ _ _
      exact ⟨rfl, List.suffix_refl _, by simp [fillMask]⟩
  | cons seq l ih =>
      intro blp hsorted habove hblp
      have hseq := habove seq List.mem_cons_self
      obtain ⟨hhead, hl⟩ := List.pairwise_cons.mp hsorted
      have hdiff := toNat_sub_of_lt hseq
      rw [UInt16.lt_iff_toNat_lt] at hseq
      rw [fillMask]
      by_cases hfits : 1 ≤ seq - pid ∧ seq - pid ≤ 16
      · have hle : (seq - pid).toNat ≤ 16 := UInt16.le_iff_toNat_le.mp hfits.2
        -- the bit is the distance less one, and no bit is above it yet
        have hbit : seq - pid - 1 = UInt16.ofNat (seq.toNat - pid.toNat - 1) := by
          rw [← UInt16.toNat_inj, UInt16.toNat_sub_of_le _ _ hfits.1, hdiff, UInt16.toNat_ofNat',
            Nat.mod_eq_of_lt (by omega)]
          rfl
        have hnext : pid + UInt16.ofNat (seq.toNat - pid.toNat - 1 + 1) = seq := by
          rw [Nat.sub_add_cancel (by omega), ← hdiff, UInt16.ofNat_toNat, UInt16.add_comm,
            UInt16.sub_add_cancel]
        have hor := BitmaskNack.lostSeqs_or pid (by omega) (hblp seq List.mem_cons_self)
        have hmask : ∀ x ∈ l, (blp ||| (1 <<< UInt16.ofNat (seq.toNat - pid.toNat - 1))).toNat
            < 2 ^ (x.toNat - pid.toNat - 1) := by
          intro x hx
          have hlt := UInt16.lt_iff_toNat_lt.mp (hhead x hx)
          rw [UInt16.toNat_or, toNat_bit (by omega)]
          exact Nat.or_lt_two_pow (hblp x (List.mem_cons_of_mem seq hx))
            (Nat.pow_lt_pow_right (by decide) (by omega))
        rw [hnext] at hor
        rw [if_pos hfits, hbit]
        obtain ⟨hlost, hsuffix, hfar⟩ := ih _ hl
          (fun x hx => habove x (List.mem_cons_of_mem seq hx)) hmask
        refine ⟨?_, hsuffix.trans (List.suffix_cons seq l), hfar⟩
        rw [hlost, hor, List.append_assoc, List.singleton_append]
      · rw [if_neg hfits]
        refine ⟨rfl, List.suffix_refl _, ?_⟩
        have hfar : pid.toNat + 17 ≤ seq.toNat := by
          rw [UInt16.le_iff_toNat_le, UInt16.le_iff_toNat_le, hdiff] at hfits
          simp at hfits
          omega
        intro x hx
        rcases List.mem_cons.mp hx with rfl | hx
        · exact hfar
        · exact Nat.le_trans hfar (Nat.le_of_lt (UInt16.lt_iff_toNat_lt.mp (hhead x hx)))

theorem packMasks_lostSeqs {l : List UInt16} (h : l.Pairwise (· < ·)) :
    (packMasks l).flatMap BitmaskNack.lostSeqs = l := by
  induction l using packMasks.induct with
  | case1 => rw [packMasks, List.flatMap_nil]
  | case2 pid l ih =>
      obtain ⟨habove, hl⟩ := List.pairwise_cons.mp h
      obtain ⟨hlost, hsuffix, -⟩ := fillMask_spec 0 hl habove fun x _ => Nat.two_pow_pos _
      rw [packMasks, List.flatMap_cons, ih (hl.sublist hsuffix.sublist), hlost,
        BitmaskNack.lostSeqs_zero, List.singleton_append]

/-- Entries are at least 17 numbers apart. -/
theorem packMasks_length {l : List UInt16} (h : l.Pairwise (· < ·)) :
    ∀ (lo : Nat), (∀ x ∈ l, lo ≤ x.toNat) → 17 * (packMasks l).length ≤ 65552 - lo := by
  induction l using packMasks.induct with
  | case1 =>
      intro lo _
      rw [packMasks]
      exact Nat.zero_le _
  | case2 pid l ih =>
      intro lo hlo
      obtain ⟨habove, hl⟩ := List.pairwise_cons.mp h
      obtain ⟨-, hsuffix, hfar⟩ := fillMask_spec 0 hl habove fun x _ => Nat.two_pow_pos _
      have hrest := ih (hl.sublist hsuffix.sublist) _ hfar
      have hpid := hlo pid List.mem_cons_self
      have hlt := pid.toNat_lt
      rw [packMasks, List.length_cons]
      omega

/-! ### Ranges -/

theorem toNat_add_of_lt {x y : UInt16} (h : x.toNat + y.toNat < 65536) :
    (x + y).toNat = x.toNat + y.toNat := by
  rw [UInt16.toNat_add]
  exact Nat.mod_eq_of_lt h

theorem toNat_addU16 {x : UInt16} (h : x.toNat + 1 < 65536) : addU16 x 1 = .ok (x + 1) := if_pos h

theorem lostSeqs_single (start : UInt16) : RangeEntry.lostSeqs ⟨start, 0⟩ = [start] := by
  simp [RangeEntry.lostSeqs]

theorem lostSeqs_extend {start extra : UInt16} (h : extra.toNat + 1 < 65536) :
    RangeEntry.lostSeqs ⟨start, extra + 1⟩
      = RangeEntry.lostSeqs ⟨start, extra⟩ ++ [start + (extra + 1)] := by
  have hnext : (extra + 1).toNat = extra.toNat + 1 := toNat_add_of_lt h
  unfold RangeEntry.lostSeqs
  simp only [hnext]
  rw [List.range_succ, List.map_append, List.map_singleton, ← hnext, UInt16.ofNat_toNat]

/-- **What a run takes.**  No addition overflows: the run has not reached the next
number, so it is short of the last one. -/
theorem extendRun_spec (start : UInt16) {l : List UInt16} :
    ∀ (extra : UInt16), l.Pairwise (· < ·) → (∀ x ∈ l, start.toNat + extra.toNat < x.toNat) →
      ∃ extra' rest, extendRun start extra l = .ok (extra', rest) ∧
        RangeEntry.lostSeqs ⟨start, extra'⟩ ++ rest = RangeEntry.lostSeqs ⟨start, extra⟩ ++ l ∧
        rest <:+ l ∧ ∀ x ∈ rest, start.toNat + 2 ≤ x.toNat := by
  induction l with
  | nil =>
      intro extra _ _
      exact ⟨extra, [], rfl, rfl, List.suffix_refl _, by simp⟩
  | cons seq l ih =>
      intro extra hsorted habove
      have hseq := habove seq List.mem_cons_self
      have hlt := seq.toNat_lt
      obtain ⟨hhead, hl⟩ := List.pairwise_cons.mp hsorted
      have hadd := toNat_addU16 (x := extra) (by omega)
      have hnext : (extra + 1).toNat = extra.toNat + 1 := toNat_add_of_lt (by simp; omega)
      rw [extendRun]
      simp only [hadd, bind, Except.bind]
      have hsum : (start + (extra + 1)).toNat = start.toNat + (extra.toNat + 1) := by
        rw [toNat_add_of_lt (by omega), hnext]
      by_cases hrun : seq = start + (extra + 1)
      · rw [if_pos hrun]
        have hpast : ∀ x ∈ l, start.toNat + (extra + 1).toNat < x.toNat := by
          intro x hx
          rw [hnext, ← hsum, ← hrun]
          exact UInt16.lt_iff_toNat_lt.mp (hhead x hx)
        obtain ⟨extra', rest, hok, hlost, hsuffix, hfar⟩ := ih _ hl hpast
        refine ⟨extra', rest, hok, ?_, hsuffix.trans (List.suffix_cons seq l), hfar⟩
        rw [hlost, lostSeqs_extend (by omega), ← hrun, List.append_assoc, List.singleton_append]
      · rw [if_neg hrun]
        have hfar : start.toNat + 2 ≤ seq.toNat := by
          rw [← UInt16.toNat_inj, hsum] at hrun
          omega
        refine ⟨extra, seq :: l, rfl, rfl, List.suffix_refl _, ?_⟩
        intro x hx
        rcases List.mem_cons.mp hx with rfl | hx
        · exact hfar
        · exact Nat.le_trans hfar (Nat.le_of_lt (UInt16.lt_iff_toNat_lt.mp (hhead x hx)))

/-- The entries of runs, which are at least two numbers apart. -/
theorem packRanges_spec {l : List UInt16} (h : l.Pairwise (· < ·)) :
    ∃ nacks, packRanges l = .ok nacks ∧ nacks.flatMap RangeEntry.lostSeqs = l ∧
      ∀ (lo : Nat), (∀ x ∈ l, lo ≤ x.toNat) → 2 * nacks.length ≤ 65537 - lo := by
  induction l using packRanges.induct with
  | case1 => exact ⟨[], by rw [packRanges], rfl, fun _ _ => Nat.zero_le _⟩
  | case2 start l e herr =>
      obtain ⟨habove, hl⟩ := List.pairwise_cons.mp h
      obtain ⟨extra, rest, hok, -⟩ := extendRun_spec start 0 hl habove
      rw [hok] at herr
      cases herr
  | case3 start l extra rest hok hlen ih =>
      obtain ⟨habove, hl⟩ := List.pairwise_cons.mp h
      obtain ⟨extra', rest', hok', hlost, hsuffix, hfar⟩ :=
        extendRun_spec start 0 hl habove
      rw [hok] at hok'
      cases hok'
      obtain ⟨nacks, hnacks, hrest, hcount⟩ := ih (hl.sublist hsuffix.sublist)
      refine ⟨⟨start, extra⟩ :: nacks, ?_, ?_, ?_⟩
      · rw [packRanges]
        split
        · rename_i e herr
          rw [hok] at herr
          cases herr
        · rename_i extra' rest' hok'
          rw [hok] at hok'
          cases hok'
          simp only [hnacks, bind, Except.bind]
      · rw [List.flatMap_cons, hrest, hlost, lostSeqs_single, List.singleton_append]
      · intro lo hlo
        have := hcount _ hfar
        have hstart := hlo start List.mem_cons_self
        have hlt := start.toNat_lt
        rw [List.length_cons]
        omega

/-! ### Datagrams -/

end NackListBuilder

/-- The sub-packet comes through in any datagram, with whatever is sent beside it. -/
def RtcpPacket.Survives (pkt : RtcpPacket) : Prop :=
  ∀ pre post : List RtcpPacket, (∀ p ∈ pre ++ post, p.Encodable) →
    (pre ++ pkt :: post).length ≤ maxRtcpSubPackets →
    RtcpCompound.parse (RtcpCompound.serialize (pre ++ pkt :: post)) = .ok (pre ++ pkt :: post)

theorem RtcpPacket.Encodable.survives {pkt : RtcpPacket} (h : pkt.Encodable) : pkt.Survives := by
  intro pre post hothers hcount
  have hfits : ∀ p ∈ pre ++ pkt :: post, p.Encodable := by
    intro p hp
    rcases List.mem_append.mp hp with hp | hp
    · exact hothers p (List.mem_append_left post hp)
    · rcases List.mem_cons.mp hp with rfl | hp
      · exact h
      · exact hothers p (List.mem_append_right pre hp)
  obtain ⟨hframes, hpkts⟩ := RtcpCompound.forall₂_serialize hfits
  have hparse := RtcpCompound.parse_flatten hframes (by simpa using hcount) hpkts
  rwa [← List.flatMap_def] at hparse

namespace NackListBuilder

/-- **A list of lost numbers survives every encoding.**  Packed as masks, as ranges, and
as ranges in an application packet, a strictly increasing list comes through a datagram
and is what the sender of the flow is asked for; and no addition overflows on the way. -/
theorem build_survives {l : List UInt16} (hl : l.Pairwise (· < ·)) (b : NackListBuilder) :
    (RtcpPacket.nack (b.buildBitmask l)).Survives ∧ (b.buildBitmask l).entries.lostSeqs = l ∧
    ∃ nacks, b.buildRange l = .ok ⟨b.senderSsrc, b.mediaSsrc, .range nacks⟩ ∧
      (RtcpPacket.nack ⟨b.senderSsrc, b.mediaSsrc, .range nacks⟩).Survives ∧
      (NackEntries.range nacks).lostSeqs = l ∧
      (nacks.length ≤ maxRangeNackEntries →
        (RtcpPacket.app (.rangeNack ⟨b.mediaSsrc, nacks⟩)).Survives) ∧
      ∀ ssrc, nackTargetsUs b.mediaSsrc ssrc = true →
        SenderState.wanted ssrc (.nack (b.buildBitmask l)) = some l ∧
        SenderState.wanted ssrc (.nack ⟨b.senderSsrc, b.mediaSsrc, .range nacks⟩) = some l ∧
        SenderState.wanted ssrc (.app (.rangeNack ⟨b.mediaSsrc, nacks⟩)) = some l := by
  have hmasks : (b.buildBitmask l).entries.lostSeqs = l := packMasks_lostSeqs hl
  have hmasksLen := packMasks_length hl 0 fun x _ => Nat.zero_le _
  obtain ⟨nacks, hnacks, hranges, hrangesLen⟩ := packRanges_spec hl
  have hrangesLen := hrangesLen 0 fun x _ => Nat.zero_le _
  have hmasksFit : (RtcpPacket.nack (b.buildBitmask l)).Encodable := by
    show (packMasks l).length ≤ 65533
    omega
  have hrangesFit : (RtcpPacket.nack ⟨b.senderSsrc, b.mediaSsrc, .range nacks⟩).Encodable := by
    show nacks.length ≤ 65533
    omega
  refine ⟨hmasksFit.survives, hmasks, nacks, ?_, hrangesFit.survives, hranges, ?_, ?_⟩
  · unfold buildRange
    rw [hnacks]
    rfl
  · intro hfits
    have happ : (RtcpPacket.app (.rangeNack ⟨b.mediaSsrc, nacks⟩)).Encodable := hfits
    exact happ.survives
  · intro ssrc hours
    refine ⟨?_, ?_, ?_⟩
    · exact (if_pos hours).trans (congrArg some hmasks)
    · exact (if_pos hours).trans (congrArg some hranges)
    · exact (if_pos hours).trans (congrArg some hranges)

/-- Across the end of the number space: three numbers in two runs. -/
theorem build_survives_edges :
    ∃ nacks, buildRange ⟨1, 2⟩ [0, 1, 65535]
        = .ok ⟨1, 2, .range nacks⟩ ∧
      (NackEntries.range nacks).lostSeqs = [0, 1, 65535] := by
  obtain ⟨-, -, nacks, hbuild, -, hlost, -⟩ :=
    build_survives (l := [0, 1, 65535]) (by decide) ⟨1, 2⟩
  exact ⟨nacks, hbuild, hlost⟩

end NackListBuilder

end Rist
