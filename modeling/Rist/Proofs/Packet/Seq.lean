/-
The order of sequence numbers.

`diff` is positive when the other number is ahead, so a number precedes those counted on from
it.  But `cmp` compares `diff` with zero, and calls the number that comes first the greater
one.  Within half a turn it is a total order all the same, the reverse of `precedes`, and a
sorted list has the newest number first.
-/
import Rist.Packet.Seq

namespace Rist

open Serial

namespace SeqNo

variable {lo : UInt16} {n : Nat} {l : List SeqNo} {a b : SeqNo}

/-- The numbers are among the `n` from `lo` on. -/
def Within (lo : UInt16) (n : Nat) (l : List SeqNo) : Prop := ∀ a ∈ l, (a.val - lo).toNat < n

instance (lo : UInt16) (n : Nat) (l : List SeqNo) : Decidable (Within lo n l) :=
  inferInstanceAs (Decidable (∀ a ∈ l, _))

/-- On the numbers of `l` the order is total, it is the order of the sequence, and
sorting puts the oldest first. -/
structure SerialOrder (l : List SeqNo) : Prop where
  lt_iff : ∀ a ∈ l, ∀ b ∈ l, a.lt b = true ↔ a.precedes b = true
  eq_iff : ∀ a ∈ l, ∀ b ∈ l, a.cmp b = .eq ↔ a = b
  swap : ∀ a ∈ l, ∀ b ∈ l, b.cmp a = (a.cmp b).swap
  trans : ∀ a ∈ l, ∀ b ∈ l, ∀ c ∈ l, a.lt b = true → b.lt c = true → a.lt c = true
  sort : (sort l).Pairwise fun a b => b.precedes a = false

theorem precedes_iff : a.precedes b = true ↔ 0 < a.diff b := decide_eq_true_iff

theorem lt_iff_diff : a.lt b = true ↔ a.diff b < 0 := by
  unfold lt cmp
  rw [beq_iff_eq, compare_lt_iff_lt]

/-- How far a number lies from the start of the window. -/
def offset (lo : UInt16) (a : SeqNo) : Nat := (a.val - lo).toNat

theorem diff_eq (ha : offset lo a < 32768) (hb : offset lo b < 32768) :
    a.diff b = (offset lo b : Int) - offset lo a :=
  asI16_sub_of_lt ha hb

theorem offset_inj (h : offset lo a = offset lo b) : a = b := by
  have hsub : a.val - lo = b.val - lo := UInt16.toNat_inj.mp h
  have hval : a.val = b.val := by
    rw [← UInt16.sub_add_cancel a.val lo, hsub, UInt16.sub_add_cancel]
  cases a
  cases b
  exact congrArg SeqNo.mk hval

theorem offset_add (a : SeqNo) (i : UInt16) : offset a.val (a.add i) = i.toNat := by
  unfold offset add
  rw [UInt16.add_comm, UInt16.add_sub_cancel]

/-- **Counting on is in order**, for less than half a turn. -/
theorem add_precedes_add_iff (a : SeqNo) {i j : UInt16} (hi : i.toNat < 32768)
    (hj : j.toNat < 32768) : (a.add i).precedes (a.add j) = true ↔ i < j := by
  have hdiff : (a.add i).diff (a.add j) = (offset a.val (a.add j) : Int) - offset a.val (a.add i) :=
    diff_eq (by rwa [offset_add]) (by rwa [offset_add])
  rw [precedes_iff, hdiff, offset_add, offset_add, UInt16.lt_iff_toNat_lt]
  omega

/-- A number comes before the next one. -/
theorem precedes_next (a : SeqNo) : a.precedes a.next = true := by
  have hself : a.add 0 = a := congrArg SeqNo.mk (UInt16.add_zero a.val)
  have hone := (add_precedes_add_iff a (i := 0) (j := 1) (by decide) (by decide)).mpr (by decide)
  rw [hself] at hone
  exact hone

/-- The order is the reverse of the order of the sequence. -/
theorem lt_iff_precedes (ha : offset lo a < 32768) (hb : offset lo b < 32768) :
    a.lt b = true ↔ b.precedes a = true := by
  rw [lt_iff_diff, precedes_iff, diff_eq ha hb, diff_eq hb ha]
  omega

/-- **Sorting puts the newest first.** -/
theorem sort_newest_first (hn : n ≤ 32768) (h : Within lo n l) :
    (sort l).Pairwise fun a b => a.precedes b = false := by
  have hoff : ∀ a ∈ l, offset lo a < 32768 := fun a ha => (h a ha).trans_le hn
  -- the comparison is transitive on the window only, so the offsets are sorted instead
  have hmap : (sort l).map (offset lo) = (l.map (offset lo)).mergeSort fun x y => decide (y ≤ x) := by
    apply List.map_mergeSort
    intro a ha b hb
    rw [← Bool.not_not (decide _), ← decide_not, Bool.not_inj_iff, Bool.eq_iff_iff, lt_iff_diff,
      diff_eq (hoff b hb) (hoff a ha), decide_eq_true_iff]
    omega
  have hsorted : ((l.map (offset lo)).mergeSort fun x y => decide (y ≤ x)).Pairwise
      fun x y => decide (y ≤ x) = true := by
    refine List.pairwise_mergeSort (fun x y z h1 h2 => ?_) (fun x y => ?_) _
    · simp only [decide_eq_true_eq] at h1 h2 ⊢
      omega
    · simp only [Bool.or_eq_true, decide_eq_true_eq]
      omega
  rw [← hmap, List.pairwise_map] at hsorted
  refine hsorted.imp_of_mem fun {a b} ha hb hle => ?_
  have ha' := hoff a (List.mem_mergeSort.mp ha)
  have hb' := hoff b (List.mem_mergeSort.mp hb)
  rw [Bool.eq_false_iff, Ne, precedes_iff, diff_eq ha' hb']
  simp only [decide_eq_true_eq] at hle
  omega

theorem cmp_self (a : SeqNo) : a.cmp a = .eq := by
  unfold cmp diff
  rw [UInt16.sub_self]
  rfl

/-- Of one number alone every order is the same. -/
theorem SerialOrder.of_constant (h : ∀ a ∈ l, ∀ b ∈ l, a = b) : SerialOrder l := by
  have hself : ∀ a : SeqNo, a.lt a = false ∧ a.precedes a = false := by
    intro a
    refine ⟨?_, ?_⟩
    · unfold lt
      rw [cmp_self]
      rfl
    · unfold precedes diff
      rw [UInt16.sub_self]
      rfl
  constructor
  · intro a ha b hb
    rw [h a ha b hb, (hself b).1, (hself b).2]
  · intro a ha b hb
    rw [h a ha b hb]
    exact iff_of_true (cmp_self b) rfl
  · intro a ha b hb
    rw [h a ha b hb, cmp_self]
    rfl
  · intro a ha b hb c hc hab
    rw [h a ha b hb, (hself b).1] at hab
    exact absurd hab Bool.false_ne_true
  · refine List.pairwise_of_forall_mem_list fun a ha b hb => ?_
    rw [h b (List.mem_mergeSort.mp hb) a (List.mem_mergeSort.mp ha), (hself a).2]

/-- **The order is the order of the sequence** only where there is nothing to order. -/
theorem serialOrder_iff (hn : n < 32768) (h : Within lo n l) :
    SerialOrder l ↔ ∀ a ∈ l, ∀ b ∈ l, a = b := by
  constructor
  · intro horder a ha b hb
    have hoa : offset lo a < 32768 := (h a ha).trans hn
    have hob : offset lo b < 32768 := (h b hb).trans hn
    -- each would have to come before the other, or neither
    have hboth : b.precedes a = true ↔ a.precedes b = true :=
      (lt_iff_precedes hoa hob).symm.trans (horder.lt_iff a ha b hb)
    rw [precedes_iff, precedes_iff, diff_eq hob hoa, diff_eq hoa hob] at hboth
    have hoff : offset lo a = offset lo b := by omega
    exact offset_inj hoff
  · exact SerialOrder.of_constant

/-- 65535 and then 0: `0 < 65535`, though 65535 comes first. -/
theorem serialOrder_fails_at_wrap :
    Within 65535 2 [⟨65535⟩, ⟨0⟩] ∧ ¬SerialOrder [⟨65535⟩, ⟨0⟩] := by
  refine ⟨by decide, fun horder => ?_⟩
  have hiff := horder.lt_iff ⟨0⟩ (by simp) ⟨65535⟩ (by simp)
  exact absurd (hiff.mp (by decide)) (by decide)

/-- One number, twice. -/
theorem serialOrder_of_one_number :
    Within 65535 2 [⟨0⟩, ⟨0⟩] ∧ SerialOrder [⟨0⟩, ⟨0⟩] := by
  have hwithin : Within 65535 2 [⟨0⟩, ⟨0⟩] := by decide
  exact ⟨hwithin, (serialOrder_iff (by decide) hwithin).mpr (by decide)⟩

end SeqNo

end Rist
