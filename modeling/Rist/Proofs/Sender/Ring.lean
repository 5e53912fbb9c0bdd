/-
What the retransmit ring holds.

The sender numbers its packets one after the other, so packet `i` of a session carries
the number `first + i`, and two packets share a slot when their places differ by a
multiple of the ring's period: its capacity, or a whole turn of the numbers when the
ring is longer than that.  `Latest` says that a slot holds the last packet that falls on
it, and the ring holds one period of packets.
-/
import Rist.Transport.Sender

namespace Rist

namespace RetransmitBuffer

variable {b : RetransmitBuffer} {first q : UInt16} {packets : List Bytes} {data : Bytes} {i : Nat}

/-- The packets of a session are stored one after the other, from the number `seq` on. -/
def insertFrom (b : RetransmitBuffer) (seq : UInt16) : List Bytes → RetransmitBuffer
  | [] => b
  | data :: rest => (b.insert seq data).insertFrom (seq + 1) rest

/-- The number of packet `i`. -/
def numbered (first : UInt16) (i : Nat) : UInt16 := first + UInt16.ofNat i

theorem insertFrom_concat (b : RetransmitBuffer) (first : UInt16) (packets : List Bytes)
    (data : Bytes) :
    b.insertFrom first (packets ++ [data])
      = (b.insertFrom first packets).insert (numbered first packets.length) data := by
  induction packets generalizing b first with
  | nil => simp [insertFrom, numbered]
  | cons x xs ih =>
      have hnum : numbered (first + 1) xs.length = numbered first (xs.length + 1) := by
        unfold numbered
        rw [UInt16.ofNat_add, UInt16.add_assoc, UInt16.add_comm 1]
        rfl
      simp only [List.cons_append, insertFrom, ih, hnum, List.length_cons]

/-- Numbers on the same slot as `q`. -/
def SameSlot (b : RetransmitBuffer) (p q : UInt16) : Prop :=
  p.toNat % b.capacity = q.toNat % b.capacity

/-- Packet `i` is the last one that falls on the slot of `q`. -/
structure Latest (b : RetransmitBuffer) (first : UInt16) (packets : List Bytes) (q : UInt16)
    (i : Nat) (data : Bytes) : Prop where
  data : packets[i]? = some data
  slot : b.SameSlot (numbered first i) q
  last : ∀ j, i < j → j < packets.length → ¬b.SameSlot (numbered first j) q

/-- Every slot holds the last packet that falls on it. -/
def Current (b : RetransmitBuffer) (first : UInt16) (packets : List Bytes) : Prop :=
  ∀ q slot, b.slots.get q.toNat = some slot ↔
    ∃ i, b.Latest first packets q i slot.data ∧ slot.seq = numbered first i

theorem Latest.lt (h : b.Latest first packets q i data) : i < packets.length :=
  (List.getElem?_eq_some_iff.mp h.data).1

/-- A packet elsewhere changes nothing for the slot of `q`. -/
theorem latest_concat_of_not {x : Bytes} (h : ¬b.SameSlot (numbered first packets.length) q) :
    b.Latest first (packets ++ [x]) q i data ↔ b.Latest first packets q i data := by
  constructor
  · intro hl
    have hlt := hl.lt
    rw [List.length_append, List.length_singleton] at hlt
    have hne : i ≠ packets.length := fun hc => h (hc ▸ hl.slot)
    have hi : i < packets.length := by omega
    refine ⟨?_, hl.slot, fun j h1 h2 => hl.last j h1 (by simp; omega)⟩
    rw [← hl.data, List.getElem?_append_left hi]
  · intro hl
    refine ⟨?_, hl.slot, fun j h1 h2 => ?_⟩
    · rw [List.getElem?_append_left hl.lt]
      exact hl.data
    · rw [List.length_append, List.length_singleton] at h2
      rcases Nat.lt_or_ge j packets.length with hj | hj
      · exact hl.last j h1 hj
      · rw [show j = packets.length by omega]
        exact h

/-- The newest packet is the last one on its slot. -/
theorem latest_concat {x : Bytes} (h : b.SameSlot (numbered first packets.length) q) :
    b.Latest first (packets ++ [x]) q i data ↔ i = packets.length ∧ data = x := by
  constructor
  · intro hl
    have hlt := hl.lt
    rw [List.length_append, List.length_singleton] at hlt
    have hi : i = packets.length := by
      refine Nat.le_antisymm (by omega) (Nat.le_of_not_lt fun hc => ?_)
      exact hl.last packets.length hc (by simp) h
    have hdata := hl.data
    rw [hi, List.getElem?_concat_length] at hdata
    exact ⟨hi, (Option.some.inj hdata).symm⟩
  · rintro ⟨rfl, rfl⟩
    refine ⟨List.getElem?_concat_length, h, fun j h1 h2 => ?_⟩
    rw [List.length_append, List.length_singleton] at h2
    omega

theorem current_new (capacity : Nat) (first : UInt16) : (new capacity).Current first [] := by
  intro q slot
  constructor
  · intro h
    rw [new, SlotRing.get_replicate] at h
    exact absurd h (by simp)
  · rintro ⟨i, hl, -⟩
    exact absurd hl.data (by simp)

/-- The capacity is the next power of two. -/
theorem capacity_new (capacity : Nat) : (new capacity).capacity = 2 ^ Nat.clog 2 capacity := rfl

theorem insert_capacity (b : RetransmitBuffer) (seq : UInt16) (data : Bytes) :
    (b.insert seq data).capacity = b.capacity := rfl

theorem Current.insert (h : b.Current first packets) (x : Bytes) :
    (b.insert (numbered first packets.length) x).Current first (packets ++ [x]) := by
  intro q slot
  -- the ring's size has not changed, so slots coincide as before
  have hlatest : ∀ i d, (b.insert (numbered first packets.length) x).Latest first (packets ++ [x]) q i d
      ↔ b.Latest first (packets ++ [x]) q i d := fun _ _ => ⟨fun hl => ⟨hl.data, hl.slot, hl.last⟩,
        fun hl => ⟨hl.data, hl.slot, hl.last⟩⟩
  simp only [hlatest]
  show (b.slots.set _ _).get q.toNat = _ ↔ _
  rw [SlotRing.get_set]
  by_cases hs : (numbered first packets.length).toNat % b.slots.capacity
      = q.toNat % b.slots.capacity
  · rw [if_pos hs]
    simp only [latest_concat (show b.SameSlot _ q from hs)]
    constructor
    · intro heq
      rw [← Option.some.inj heq]
      exact ⟨_, ⟨rfl, rfl⟩, rfl⟩
    · rintro ⟨i, ⟨rfl, hdata⟩, hseq⟩
      rw [← hdata, ← hseq]
  · rw [if_neg hs, h q slot]
    simp only [latest_concat_of_not (show ¬b.SameSlot _ q from hs)]

theorem current_insertFrom (capacity : Nat) (first : UInt16) (packets : List Bytes) :
    ((new capacity).insertFrom first packets).Current first packets ∧
      ((new capacity).insertFrom first packets).capacity = (new capacity).capacity := by
  induction packets using List.reverseRecOn with
  | nil => exact ⟨current_new capacity first, rfl⟩
  | append_singleton packets x ih =>
      rw [insertFrom_concat]
      exact ⟨ih.1.insert x, ih.2⟩

/-! ### Which packets share a slot -/

/-- Packets this far apart fall on the same slot: the capacity, or a turn of the numbers. -/
def period (b : RetransmitBuffer) : Nat := min b.capacity 65536

theorem toNat_numbered (first : UInt16) (i : Nat) :
    (numbered first i).toNat = (first.toNat + i) % 65536 := by
  unfold numbered
  rw [UInt16.toNat_add, UInt16.toNat_ofNat']
  omega

/-- A power of two either divides a turn or is at least one. -/
theorem toNat_mod_capacity (b : RetransmitBuffer) (first : UInt16) (i : Nat) :
    (numbered first i).toNat % b.capacity = (first.toNat + i) % b.period := by
  rw [toNat_numbered]
  show (first.toNat + i) % 65536 % 2 ^ b.slots.bits = (first.toNat + i) % min (2 ^ b.slots.bits) 65536
  rcases Nat.le_total b.slots.bits 16 with hbits | hbits
  · have hdvd : 2 ^ b.slots.bits ∣ 65536 := Nat.pow_dvd_pow 2 hbits
    have hle := Nat.le_of_dvd (show 0 < 65536 by decide) hdvd
    rw [Nat.mod_mod_of_dvd _ hdvd, Nat.min_eq_left hle]
  · have hpow : (2 : Nat) ^ 16 ≤ 2 ^ b.slots.bits := Nat.pow_le_pow_right (by decide) hbits
    have hle : 65536 ≤ 2 ^ b.slots.bits := hpow
    have hlt : (first.toNat + i) % 65536 < 65536 := Nat.mod_lt _ (by decide)
    rw [Nat.mod_eq_of_lt (hlt.trans_le hle), Nat.min_eq_right hle]

theorem sameSlot_iff (b : RetransmitBuffer) (first : UInt16) (i j : Nat) :
    b.SameSlot (numbered first j) (numbered first i) ↔ j % b.period = i % b.period := by
  unfold SameSlot
  rw [toNat_mod_capacity, toNat_mod_capacity]
  exact ⟨Nat.ModEq.add_left_cancel' _, Nat.ModEq.add_left _⟩

theorem period_pos (b : RetransmitBuffer) : 0 < b.period :=
  Nat.lt_min.mpr ⟨b.slots.capacity_pos, by decide⟩

/-- Nothing after packet `i` falls on its slot exactly when it is in the last period. -/
theorem none_after_iff (b : RetransmitBuffer) (first : UInt16) (i n : Nat) :
    (∀ j, i < j → j < n → ¬b.SameSlot (numbered first j) (numbered first i)) ↔
      n ≤ i + b.period := by
  have hpos := b.period_pos
  constructor
  · intro h
    refine Nat.le_of_not_lt fun hc => h (i + b.period) (by omega) hc ?_
    rw [sameSlot_iff, Nat.add_mod_right]
  · intro hn j h1 h2 hsame
    have hmod : i ≡ j [MOD b.period] := ((sameSlot_iff b first i j).mp hsame).symm
    have hdvd := (Nat.modEq_iff_dvd' h1.le).mp hmod
    have := Nat.le_of_dvd (by omega) hdvd
    omega

/-- A packet found is the last one that falls on the slot of its number. -/
theorem Current.get_iff (h : b.Current first packets) :
    b.get q = some data ↔ ∃ i, b.Latest first packets q i data ∧ q = numbered first i := by
  unfold RetransmitBuffer.get
  cases hslot : b.slots.get q.toNat with
  | none =>
      refine iff_of_false (by simp) ?_
      rintro ⟨i, hl, -⟩
      have hsome := (h q ⟨numbered first i, data⟩).mpr ⟨i, hl, rfl⟩
      rw [hslot] at hsome
      exact absurd hsome (by simp)
  | some slot =>
      obtain ⟨i, hl, hseq⟩ := (h q slot).mp hslot
      simp only
      constructor
      · intro heq
        by_cases hq : slot.seq = q
        · rw [if_pos hq] at heq
          rw [← Option.some.inj heq]
          exact ⟨i, hl, hq.symm.trans hseq⟩
        · rw [if_neg hq] at heq
          exact absurd heq (by simp)
      · rintro ⟨i', hl', hq⟩
        have hsome := (h q ⟨numbered first i', data⟩).mpr ⟨i', hl', rfl⟩
        rw [hslot] at hsome
        rw [Option.some.inj hsome, if_pos hq.symm]

/-- **The ring holds exactly the latest packets.**  A number is found when it is the
number of one of the last packets, as many as the capacity (the next power of two) and a turn
of the numbers allow, and what is found is the data of the most recent packet with that
number. -/
theorem get_insertFrom (capacity : Nat) (first : UInt16) (packets : List Bytes) (q : UInt16) :
    ((((new capacity).insertFrom first packets).get q).isSome = true ↔
      ∃ i, packets.length - min packets.length (min (2 ^ Nat.clog 2 capacity) 65536) ≤ i ∧
        i < packets.length ∧ q = numbered first i) ∧
    ∀ data, ((new capacity).insertFrom first packets).get q = some data →
      ∃ i, packets[i]? = some data ∧ q = numbered first i ∧
        ∀ j, i < j → j < packets.length → q ≠ numbered first j := by
  obtain ⟨hcur, hcap⟩ := current_insertFrom capacity first packets
  rw [capacity_new] at hcap
  generalize (new capacity).insertFrom first packets = b at hcur hcap ⊢
  rw [← hcap]
  have hperiod : min b.capacity 65536 = b.period := rfl
  rw [hperiod]
  constructor
  · rw [Option.isSome_iff_exists]
    simp only [hcur.get_iff]
    constructor
    · rintro ⟨data, i, hl, rfl⟩
      have hlt := hl.lt
      have hn := (none_after_iff b first i packets.length).mp hl.last
      exact ⟨i, by omega, hlt, rfl⟩
    · rintro ⟨i, hlo, hlt, rfl⟩
      refine ⟨packets[i], i, ⟨List.getElem?_eq_getElem hlt, rfl, ?_⟩, rfl⟩
      exact (none_after_iff b first i packets.length).mpr (by omega)
  · intro data hget
    obtain ⟨i, hl, hq⟩ := hcur.get_iff.mp hget
    refine ⟨i, hl.data, hq, fun j h1 h2 hj => hl.last j h1 h2 ?_⟩
    rw [← hj]
    rfl

end RetransmitBuffer

namespace SenderState

/-- The datagrams of the media arm, payload after payload. -/
def mediaSent (s : SenderState) : List (Bytes × UInt32) → List Bytes
  | [] => []
  | (payload, rtpTimestamp) :: media =>
    (s.mediaArm payload rtpTimestamp).2.2 :: (s.mediaArm payload rtpTimestamp).1.mediaSent media

/-- The media arm numbers and stores its packets one after the other. -/
theorem mediaArm_insertFrom (media : List (Bytes × UInt32)) (s : SenderState) :
    (media.foldl (fun s m => (s.mediaArm m.1 m.2).1) s).retransmitBuf
      = s.retransmitBuf.insertFrom s.seq (s.mediaSent media) := by
  induction media generalizing s with
  | nil => rfl
  | cons m media ih => exact ih (s.mediaArm m.1 m.2).1

end SenderState

end Rist
