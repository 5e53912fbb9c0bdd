/-
A set of small numbers, one bit each, in words of sixty-four bits.

Everything said of a word is said of its bits (`testBit`), and everything said of the
table is said of membership: what marking and clearing one number does to the others
is nothing.
-/
import Mathlib.Data.Nat.Bitwise

/-- A table of `words` words. -/
structure Bitmap (words : Nat) where
  cells : Vector UInt64 words

namespace Bitmap

/-! ### One word -/

/-- The word with the bit `k` set and no other. -/
def bit (k : Nat) : UInt64 := 1 <<< UInt64.ofNat k

theorem toNat_bit {k : Nat} (hk : k < 64) : (bit k).toNat = 2 ^ k := by
  unfold bit
  rw [UInt64.toNat_shiftLeft, UInt64.toNat_ofNat', Nat.mod_eq_of_lt (a := k) (by omega),
    Nat.mod_eq_of_lt hk]
  show 1 <<< k % 2 ^ 64 = 2 ^ k
  rw [Nat.one_shiftLeft, Nat.mod_eq_of_lt (Nat.pow_lt_pow_right (by decide) hk)]

theorem and_bit_ne_zero (x : UInt64) {k : Nat} (hk : k < 64) :
    x &&& bit k ≠ 0 ↔ x.toNat.testBit k = true := by
  rw [ne_eq, ← UInt64.toNat_inj, UInt64.toNat_and, toNat_bit hk, Nat.and_two_pow]
  simp

theorem testBit_or_bit (x : UInt64) {j k : Nat} (hk : k < 64) :
    (x ||| bit k).toNat.testBit j = (x.toNat.testBit j || decide (k = j)) := by
  rw [UInt64.toNat_or, toNat_bit hk, Nat.testBit_or, Nat.testBit_two_pow]

theorem testBit_and_not_bit (x : UInt64) {j k : Nat} (hj : j < 64) (hk : k < 64) :
    (x &&& ~~~bit k).toNat.testBit j = (x.toNat.testBit j && !decide (k = j)) := by
  have hnot : (~~~bit k).toNat.testBit j = !decide (k = j) := by
    rw [UInt64.toNat_not, toNat_bit hk]
    show (2 ^ 64 - 1 - 2 ^ k).testBit j = _
    rw [Nat.sub_sub, Nat.add_comm,
      Nat.testBit_two_pow_sub_succ (Nat.pow_lt_pow_right (by decide) hk), Nat.testBit_two_pow,
      decide_eq_true hj, Bool.true_and]
  rw [UInt64.toNat_and, Nat.testBit_and, hnot]

/-! ### The table -/

variable {words : Nat}

def empty : Bitmap words := ⟨Vector.replicate words 0⟩

theorem word_lt (i : Fin (64 * words)) : i.val / 64 < words :=
  Nat.div_lt_of_lt_mul i.isLt

def word (b : Bitmap words) (i : Fin (64 * words)) : UInt64 := b.cells.get ⟨i.val / 64, word_lt i⟩

theorem word_eq_getElem (b : Bitmap words) {i : Fin (64 * words)} (h : i.val / 64 < words) :
    b.word i = b.cells[i.val / 64] := rfl

/-- Is `i` in the set? -/
def get (b : Bitmap words) (i : Fin (64 * words)) : Bool :=
  decide (b.word i &&& bit (i.val % 64) ≠ 0)

def set (b : Bitmap words) (i : Fin (64 * words)) (x : UInt64) : Bitmap words :=
  ⟨b.cells.set (i.val / 64) x (word_lt i)⟩

def mark (b : Bitmap words) (i : Fin (64 * words)) : Bitmap words :=
  b.set i (b.word i ||| bit (i.val % 64))

def clear (b : Bitmap words) (i : Fin (64 * words)) : Bitmap words :=
  b.set i (b.word i &&& ~~~bit (i.val % 64))

theorem get_eq_testBit (b : Bitmap words) (i : Fin (64 * words)) :
    b.get i = (b.word i).toNat.testBit (i.val % 64) := by
  unfold get
  rw [Bool.eq_iff_iff, decide_eq_true_iff, and_bit_ne_zero _ (Nat.mod_lt _ (by decide))]

theorem word_set (b : Bitmap words) (i j : Fin (64 * words)) (x : UInt64) :
    (b.set i x).word j = if i.val / 64 = j.val / 64 then x else b.word j := by
  rw [word_eq_getElem _ (word_lt j), word_eq_getElem _ (word_lt j)]
  unfold set
  rw [Vector.getElem_set]

theorem word_congr (b : Bitmap words) {i j : Fin (64 * words)} (h : i.val / 64 = j.val / 64) :
    b.word i = b.word j := by
  unfold word
  simp only [h]

theorem eq_iff_word_bit {i j : Fin (64 * words)} :
    i = j ↔ i.val / 64 = j.val / 64 ∧ i.val % 64 = j.val % 64 := by
  rw [Fin.ext_iff]
  omega

@[simp] theorem get_empty (i : Fin (64 * words)) : (empty : Bitmap words).get i = false := by
  rw [get_eq_testBit]
  rw [word_eq_getElem _ (word_lt i)]
  unfold empty
  simp

/-- Marking one number changes no other. -/
theorem get_mark (b : Bitmap words) (i j : Fin (64 * words)) :
    (b.mark i).get j = (b.get j || decide (i = j)) := by
  rw [get_eq_testBit, get_eq_testBit]
  unfold mark
  rw [word_set]
  by_cases hword : i.val / 64 = j.val / 64
  · rw [if_pos hword, testBit_or_bit _ (Nat.mod_lt _ (by decide)), b.word_congr hword]
    simp [eq_iff_word_bit, hword]
  · rw [if_neg hword]
    simp [eq_iff_word_bit, hword]

/-- Clearing one number changes no other. -/
theorem get_clear (b : Bitmap words) (i j : Fin (64 * words)) :
    (b.clear i).get j = (b.get j && !decide (i = j)) := by
  rw [get_eq_testBit, get_eq_testBit]
  unfold clear
  rw [word_set]
  by_cases hword : i.val / 64 = j.val / 64
  · rw [if_pos hword, testBit_and_not_bit _ (Nat.mod_lt _ (by decide)) (Nat.mod_lt _ (by decide)),
      b.word_congr hword]
    simp [eq_iff_word_bit, hword]
  · rw [if_neg hword]
    simp [eq_iff_word_bit, hword]

end Bitmap
