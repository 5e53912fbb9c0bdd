/-
Names on the wire.

A CNAME is written as UTF-8 and read with `String::from_utf8_lossy`, which never
fails.  On what was written it loses nothing: the decoder takes a character's bytes
together and gives the character back.

On a name cut short it gives fewer characters.  It may read a torn last character as
several, but never as many as a long rest had.
-/
import Rist.Packet.RtcpReport

namespace Rist

/-! ### The bytes of a sequence -/

theorem isContinuation_iff (b : UInt8) :
    isContinuation b = true ↔ 0x80 ≤ b.toNat ∧ b.toNat ≤ 0xBF := by
  unfold isContinuation
  rw [Bool.and_eq_true, decide_eq_true_iff, decide_eq_true_iff, UInt8.le_iff_toNat_le,
    UInt8.le_iff_toNat_le]
  rfl

/-- The second byte of a long sequence, by the number of its first. -/
theorem secondAllowed_iff (a b : UInt8) :
    secondAllowed a b = true ↔ 0x80 ≤ b.toNat ∧ b.toNat ≤ 0xBF ∧
      (a.toNat = 0xE0 → 0xA0 ≤ b.toNat) ∧ (a.toNat = 0xED → b.toNat ≤ 0x9F) ∧
      (a.toNat = 0xF0 → 0x90 ≤ b.toNat) ∧ (a.toNat = 0xF4 → b.toNat ≤ 0x8F) := by
  unfold secondAllowed
  have heq : ∀ k : UInt8, a = k ↔ a.toNat = k.toNat := fun k => UInt8.toNat_inj.symm
  have hcmp : ∀ lo hi : UInt8, (decide (lo ≤ b) && decide (b ≤ hi)) = true ↔
      lo.toNat ≤ b.toNat ∧ b.toNat ≤ hi.toNat := by
    intro lo hi
    rw [Bool.and_eq_true, decide_eq_true_iff, decide_eq_true_iff, UInt8.le_iff_toNat_le,
      UInt8.le_iff_toNat_le]
  simp only [heq]
  split
  · rw [hcmp]
    simp_all
    omega
  split
  · rw [hcmp]
    simp_all
    omega
  split
  · rw [hcmp]
    simp_all
    omega
  split
  · rw [hcmp]
    simp_all
    omega
  · rw [isContinuation_iff]
    simp_all

/-! ### Sequences of one to four bytes -/

theorem utf8Step_one {a : UInt8} (h : a.toNat < 0x80) (t : Bytes) :
    utf8Step a t = (Char.ofNat a.toNat, 0) := if_pos (UInt8.lt_iff_toNat_lt.mpr h)

theorem utf8Step_two {a b : UInt8} (ha : 0xC2 ≤ a.toNat ∧ a.toNat ≤ 0xDF)
    (hb : isContinuation b = true) (t : Bytes) :
    utf8Step a (b :: t) = (Char.ofNat (a.toNat % 32 * 64 + b.toNat % 64), 1) := by
  have h1 : ¬a < 0x80 := fun h => absurd (UInt8.lt_iff_toNat_lt.mp h) (by simp; omega)
  have h2 : 0xC2 ≤ a ∧ a ≤ 0xDF := ⟨UInt8.le_iff_toNat_le.mpr ha.1, UInt8.le_iff_toNat_le.mpr ha.2⟩
  unfold utf8Step
  simp only [if_neg h1, if_pos h2, if_pos hb]

theorem utf8Step_three {a b c : UInt8} (ha : 0xE0 ≤ a.toNat ∧ a.toNat ≤ 0xEF)
    (hb : secondAllowed a b = true) (hc : isContinuation c = true) (t : Bytes) :
    utf8Step a (b :: c :: t)
      = (Char.ofNat ((a.toNat % 16 * 64 + b.toNat % 64) * 64 + c.toNat % 64), 2) := by
  have h1 : ¬a < 0x80 := fun h => absurd (UInt8.lt_iff_toNat_lt.mp h) (by simp; omega)
  have h2 : ¬(0xC2 ≤ a ∧ a ≤ 0xDF) :=
    fun h => absurd (UInt8.le_iff_toNat_le.mp h.2) (by simp; omega)
  have h3 : 0xE0 ≤ a ∧ a ≤ 0xEF := ⟨UInt8.le_iff_toNat_le.mpr ha.1, UInt8.le_iff_toNat_le.mpr ha.2⟩
  unfold utf8Step
  simp only [if_neg h1, if_neg h2, if_pos h3, if_pos hb, if_pos hc]

theorem utf8Step_four {a b c d : UInt8} (ha : 0xF0 ≤ a.toNat ∧ a.toNat ≤ 0xF4)
    (hb : secondAllowed a b = true) (hc : isContinuation c = true) (hd : isContinuation d = true)
    (t : Bytes) :
    utf8Step a (b :: c :: d :: t) = (Char.ofNat (((a.toNat % 8 * 64 + b.toNat % 64) * 64
      + c.toNat % 64) * 64 + d.toNat % 64), 3) := by
  have h1 : ¬a < 0x80 := fun h => absurd (UInt8.lt_iff_toNat_lt.mp h) (by simp; omega)
  have h2 : ¬(0xC2 ≤ a ∧ a ≤ 0xDF) :=
    fun h => absurd (UInt8.le_iff_toNat_le.mp h.2) (by simp; omega)
  have h3 : ¬(0xE0 ≤ a ∧ a ≤ 0xEF) :=
    fun h => absurd (UInt8.le_iff_toNat_le.mp h.2) (by simp; omega)
  have h4 : 0xF0 ≤ a ∧ a ≤ 0xF4 := ⟨UInt8.le_iff_toNat_le.mpr ha.1, UInt8.le_iff_toNat_le.mpr ha.2⟩
  unfold utf8Step
  simp only [if_neg h1, if_neg h2, if_neg h3, if_pos h4, if_pos hb, if_pos hc, if_pos hd]

/-! ### Characters -/

/-- A character is read back from its encoding, whatever follows. -/
theorem utf8Step_encode (c : Char) (t : Bytes) :
    ∃ b rest, String.utf8EncodeChar c = b :: rest ∧ utf8Step b (rest ++ t) = (c, rest.length) := by
  have hvalid : c.val.toNat < 0xD800 ∨ 0xDFFF < c.val.toNat ∧ c.val.toNat < 0x110000 := c.valid
  have hchar : Char.ofNat c.val.toNat = c := Char.ofNat_toNat c
  have hbyte : ∀ n, n < 256 → (UInt8.ofNat n).toNat = n := by
    intro n hn
    rw [UInt8.toNat_ofNat', Nat.mod_eq_of_lt hn]
  have hcont : ∀ n, isContinuation (UInt8.ofNat (n % 64 + 128)) = true := by
    intro n
    rw [isContinuation_iff, hbyte _ (by omega)]
    omega
  unfold String.utf8EncodeChar
  simp only
  generalize c.val.toNat = v at *
  split
  · refine ⟨_, _, rfl, ?_⟩
    rw [utf8Step_one (by rw [hbyte v (by omega)]; omega), hbyte v (by omega), hchar]
    rfl
  split
  · refine ⟨_, _, rfl, ?_⟩
    have ha := hbyte (v / 64 % 32 + 192) (by omega)
    show utf8Step _ (_ :: t) = _
    rw [utf8Step_two (by omega) (hcont v), ha, hbyte (v % 64 + 128) (by omega),
      show (v / 64 % 32 + 192) % 32 * 64 + (v % 64 + 128) % 64 = v by omega, hchar]
    rfl
  split
  · refine ⟨_, _, rfl, ?_⟩
    have ha := hbyte (v / 4096 % 16 + 224) (by omega)
    have hb := hbyte (v / 64 % 64 + 128) (by omega)
    have hsecond : secondAllowed (UInt8.ofNat (v / 4096 % 16 + 224))
        (UInt8.ofNat (v / 64 % 64 + 128)) = true := by
      rw [secondAllowed_iff, ha, hb]
      omega
    show utf8Step _ (_ :: _ :: t) = _
    rw [utf8Step_three (by omega) hsecond (hcont v), ha, hb, hbyte (v % 64 + 128) (by omega),
      show ((v / 4096 % 16 + 224) % 16 * 64 + (v / 64 % 64 + 128) % 64) * 64
        + (v % 64 + 128) % 64 = v by omega, hchar]
    rfl
  · refine ⟨_, _, rfl, ?_⟩
    have ha := hbyte (v / 262144 % 8 + 240) (by omega)
    have hb := hbyte (v / 4096 % 64 + 128) (by omega)
    have hsecond : secondAllowed (UInt8.ofNat (v / 262144 % 8 + 240))
        (UInt8.ofNat (v / 4096 % 64 + 128)) = true := by
      rw [secondAllowed_iff, ha, hb]
      omega
    show utf8Step _ (_ :: _ :: _ :: t) = _
    rw [utf8Step_four (by omega) hsecond (hcont (v / 64)) (hcont v), ha, hb,
      hbyte (v / 64 % 64 + 128) (by omega), hbyte (v % 64 + 128) (by omega),
      show (((v / 262144 % 8 + 240) % 8 * 64 + (v / 4096 % 64 + 128) % 64) * 64
        + (v / 64 % 64 + 128) % 64) * 64 + (v % 64 + 128) % 64 = v by omega, hchar]
    rfl

/-- **Decoding undoes encoding.** -/
theorem fromUtf8Lossy_encode (l : List Char) :
    fromUtf8Lossy (l.flatMap String.utf8EncodeChar) = l := by
  induction l with
  | nil => rw [List.flatMap_nil, fromUtf8Lossy]
  | cons c l ih =>
      obtain ⟨b, rest, hencode, hstep⟩ := utf8Step_encode c (l.flatMap String.utf8EncodeChar)
      rw [List.flatMap_cons, hencode, List.cons_append, fromUtf8Lossy, hstep]
      simp only [List.drop_left, ih]

/-! ### Names cut short -/

theorem fromUtf8Lossy_length_le (bs : Bytes) : (fromUtf8Lossy bs).length ≤ bs.length := by
  induction bs using fromUtf8Lossy.induct with
  | case1 =>
      rw [fromUtf8Lossy]
      exact Nat.le_refl _
  | case2 b rest c taken hstep ih =>
      rw [fromUtf8Lossy, hstep]
      simp only [List.length_cons, List.length_drop] at ih ⊢
      omega

theorem length_encode_le (l : List Char) :
    (l.flatMap String.utf8EncodeChar).length ≤ 4 * l.length := by
  induction l with
  | nil => exact Nat.zero_le _
  | cons c l ih =>
      have hsize := Char.utf8Size_le_four c
      rw [List.flatMap_cons, List.length_append, String.length_utf8EncodeChar, List.length_cons]
      omega

/-- **A name cut short by sixteen bytes or more is read as a shorter name.** -/
theorem fromUtf8Lossy_take_length_lt (l : List Char) :
    ∀ k, k + 16 ≤ (l.flatMap String.utf8EncodeChar).length →
      (fromUtf8Lossy ((l.flatMap String.utf8EncodeChar).take k)).length < l.length := by
  induction l with
  | nil =>
      intro k hk
      simp at hk
  | cons c l ih =>
      intro k hk
      have hlen := length_encode_le (c :: l)
      have hsize := Char.utf8Size_le_four c
      have hchar := String.length_utf8EncodeChar c
      rcases Nat.lt_or_ge k (String.utf8EncodeChar c).length with hcut | hwhole
      · -- the cut falls into the first character: at most three bytes are left to read
        have hread := fromUtf8Lossy_length_le
          (((c :: l).flatMap String.utf8EncodeChar).take k)
        rw [List.length_take] at hread
        omega
      · -- the first character is read whole, and the cut falls into the rest
        obtain ⟨b, rest, hencode, hstep⟩ := utf8Step_encode c
          ((l.flatMap String.utf8EncodeChar).take (k - (String.utf8EncodeChar c).length))
        have htake : ((c :: l).flatMap String.utf8EncodeChar).take k
            = String.utf8EncodeChar c ++ (l.flatMap String.utf8EncodeChar).take
                (k - (String.utf8EncodeChar c).length) := by
          rw [List.flatMap_cons, List.take_append, List.take_of_length_le hwhole]
        have hshort := ih (k - (String.utf8EncodeChar c).length) (by
          rw [List.flatMap_cons, List.length_append] at hk
          omega)
        rw [htake, hencode, List.cons_append, fromUtf8Lossy, ← hencode, hstep]
        simp only [List.drop_left, List.length_cons]
        omega

end Rist
