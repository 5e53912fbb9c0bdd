/-
Sixteen-bit serial numbers and the integer line they wrap.

A wire counter shows only the low sixteen bits of a position on the integer
line.  `UInt16.ofInt` is that projection.  Code that works on the projection
compares two numbers by their wrapped difference, read as a signed value: the
reading is right exactly when the two positions are less than half the circle
apart.  Everything here says when a fact about the wrapped numbers is a fact
about the positions, so that proofs can move to the integers and stay there.
-/
import Mathlib.Algebra.Order.Group.Int
import Mathlib.Algebra.Ring.Nat
import Mathlib.Order.Lattice

namespace Serial

/-- The sixteen bits of `x` read as a two's complement number. -/
def asI16 (x : UInt16) : Int :=
  if x.toNat < 32768 then x.toNat else (x.toNat : Int) - 65536

theorem toNat_ofInt (p : Int) : ((UInt16.ofInt p).toNat : Int) = p % 65536 := by
  simp only [UInt16.ofInt, UInt16.toNat_ofNat']
  omega

theorem toNat_sub (a b : UInt16) : ((a - b).toNat : Int) = (a.toNat - b.toNat : Int) % 65536 := by
  have ha := a.toNat_lt
  have hb := b.toNat_lt
  rw [UInt16.toNat_sub]
  omega

theorem toNat_add (a b : UInt16) : ((a + b).toNat : Int) = (a.toNat + b.toNat : Int) % 65536 := by
  rw [UInt16.toNat_add]
  omega

theorem eq_iff_toNat {a b : UInt16} : a = b ↔ (a.toNat : Int) = b.toNat := by
  rw [← UInt16.toNat_inj]
  omega

/-- Two positions project to the same number when they differ by whole turns. -/
theorem ofInt_eq_iff {p q : Int} : UInt16.ofInt p = UInt16.ofInt q ↔ p % 65536 = q % 65536 := by
  rw [eq_iff_toNat, toNat_ofInt, toNat_ofInt]

/-- Closer than a whole turn, the projection is injective. -/
theorem ofInt_inj {p q : Int} (h1 : p - q < 65536) (h2 : q - p < 65536)
    (h : UInt16.ofInt p = UInt16.ofInt q) : p = q := by
  have := ofInt_eq_iff.mp h
  omega

theorem ofInt_ne {p q : Int} (h1 : p - q < 65536) (h2 : q - p < 65536) (h : p ≠ q) :
    UInt16.ofInt p ≠ UInt16.ofInt q :=
  fun hc => h (ofInt_inj h1 h2 hc)

/-- Adding on the circle is adding on the line. -/
theorem ofInt_add (p : Int) (a : UInt16) : UInt16.ofInt p + a = UInt16.ofInt (p + a.toNat) := by
  rw [eq_iff_toNat, toNat_add, toNat_ofInt, toNat_ofInt]
  omega

theorem ofInt_add_one (p : Int) : UInt16.ofInt p + 1 = UInt16.ofInt (p + 1) :=
  ofInt_add p 1

theorem ofNat_toNat_of_lt {n : Nat} (h : n < 65536) : (UInt16.ofNat n).toNat = n := by
  rw [UInt16.toNat_ofNat']
  omega

/-! ### Distances

`(a - b).toNat` is how far `a` lies ahead of `b` going forward round the circle,
and `asI16 (a - b)` is the same distance read as signed.
-/

theorem toNat_sub_ofInt {p q : Int} (h1 : 0 ≤ p - q) (h2 : p - q < 65536) :
    ((UInt16.ofInt p - UInt16.ofInt q).toNat : Int) = p - q := by
  rw [toNat_sub, toNat_ofInt, toNat_ofInt]
  omega

theorem toNat_sub_ofInt_neg {p q : Int} (h1 : -65536 ≤ p - q) (h2 : p - q < 0) :
    ((UInt16.ofInt p - UInt16.ofInt q).toNat : Int) = p - q + 65536 := by
  rw [toNat_sub, toNat_ofInt, toNat_ofInt]
  omega

/-- Within half a turn the signed difference is the difference of the positions. -/
theorem asI16_sub_ofInt {p q : Int} (h1 : -32768 ≤ p - q) (h2 : p - q < 32768) :
    asI16 (UInt16.ofInt p - UInt16.ofInt q) = p - q := by
  unfold asI16
  rcases lt_or_ge (p - q) 0 with h | h
  · have := toNat_sub_ofInt_neg (p := p) (q := q) (by omega) h
    split <;> omega
  · have := toNat_sub_ofInt h (by omega : p - q < 65536)
    split <;> omega

theorem asI16_bounds (x : UInt16) : -32768 ≤ asI16 x ∧ asI16 x < 32768 := by
  have := x.toNat_lt
  unfold asI16
  split <;> omega

/-- The signed reading is the number itself, up to a whole turn. -/
theorem asI16_emod (x : UInt16) : asI16 x % 65536 = x.toNat := by
  have := x.toNat_lt
  unfold asI16
  split <;> omega

/-- Two numbers seen from a third: their distance, up to a whole turn. -/
theorem asI16_sub_emod (x y z : UInt16) :
    asI16 (x - y) % 65536 = (asI16 (x - z) - asI16 (y - z)) % 65536 := by
  have hxy := asI16_emod (x - y)
  have hxz := asI16_emod (x - z)
  have hyz := asI16_emod (y - z)
  rw [toNat_sub] at hxy hxz hyz
  omega

/-- The distance itself, if it is one of the half circle. -/
theorem asI16_sub_sub {x y z : UInt16} (h1 : -32768 ≤ asI16 (x - z) - asI16 (y - z))
    (h2 : asI16 (x - z) - asI16 (y - z) < 32768) :
    asI16 (x - y) = asI16 (x - z) - asI16 (y - z) := by
  have hturn := asI16_sub_emod x y z
  have hbounds := asI16_bounds (x - y)
  omega

theorem asI16_self (x : UInt16) : asI16 (x - x) = 0 := by
  rw [UInt16.sub_self]
  rfl

theorem eq_of_asI16_sub_eq_zero {x y : UInt16} (h : asI16 (x - y) = 0) : x = y := by
  have hx := x.toNat_lt
  have hy := y.toNat_lt
  have hemod := asI16_emod (x - y)
  rw [h, toNat_sub] at hemod
  exact eq_iff_toNat.mpr (by omega)

theorem eq_succ_iff {x y : UInt16} : x = y + 1 ↔ asI16 (y - x) = -1 := by
  have hx := x.toNat_lt
  have hy := y.toNat_lt
  have hone : ((1 : UInt16).toNat : Int) = 1 := rfl
  have hemod := asI16_emod (y - x)
  have hbounds := asI16_bounds (y - x)
  rw [toNat_sub] at hemod
  rw [eq_iff_toNat, toNat_add, hone]
  omega

/-- One step forward of the number that is looked from. -/
theorem asI16_sub_succ {x y : UInt16} (h : -32768 < asI16 (x - y)) :
    asI16 (x - (y + 1)) = asI16 (x - y) - 1 := by
  have hbounds := asI16_bounds (x - y)
  have hone : asI16 (y + 1 - y) = 1 := by
    rw [UInt16.add_comm, UInt16.add_sub_cancel]
    rfl
  rw [asI16_sub_sub (z := y) (by omega) (by omega), hone]

theorem asI16_sub_of_succ {x y : UInt16} (h : asI16 (x - (y + 1)) < 32767) :
    asI16 (x - y) = asI16 (x - (y + 1)) + 1 := by
  have hbounds := asI16_bounds (x - (y + 1))
  have hone : asI16 (y - (y + 1)) = -1 := eq_succ_iff.mp rfl
  rw [asI16_sub_sub (z := y + 1) (by omega) (by omega), hone, sub_neg_eq_add]

theorem toNat_eq_of_asI16_nonneg {x : UInt16} (h : 0 ≤ asI16 x) : (x.toNat : Int) = asI16 x := by
  have := x.toNat_lt
  unfold asI16 at h ⊢
  split
  · rfl
  · rename_i hn
    rw [if_neg hn] at h
    omega

theorem asI16_nonneg_iff {x : UInt16} : 0 ≤ asI16 x ↔ x.toNat < 32768 := by
  have := x.toNat_lt
  unfold asI16
  split <;> omega

theorem asI16_pos_iff {x : UInt16} : 0 < asI16 x ↔ 0 < x.toNat ∧ x.toNat < 32768 := by
  have := x.toNat_lt
  unfold asI16
  split <;> omega

/-- The forward distance of two projected positions, however far apart they are. -/
theorem toNat_ofInt_sub_ofInt (p q : Int) :
    ((UInt16.ofInt p - UInt16.ofInt q).toNat : Int) = (p - q) % 65536 := by
  rw [toNat_sub, toNat_ofInt, toNat_ofInt]
  omega

/-- The position a number stands for, seen from the position `q`: the one less
than half a turn away. -/
def near (q : Int) (s : UInt16) : Int := q + asI16 (s - UInt16.ofInt q)

theorem ofInt_near (q : Int) (s : UInt16) : UInt16.ofInt (near q s) = s := by
  have hs := s.toNat_lt
  have hd := toNat_sub s (UInt16.ofInt q)
  rw [toNat_ofInt] at hd
  rw [eq_iff_toNat, toNat_ofInt]
  unfold near asI16
  split <;> omega

theorem near_bounds (q : Int) (s : UInt16) : -32768 ≤ near q s - q ∧ near q s - q < 32768 := by
  have := asI16_bounds (s - UInt16.ofInt q)
  unfold near
  omega

/-- Seen from close enough, a projected position is read back. -/
theorem near_ofInt {p q : Int} (h1 : -32768 ≤ p - q) (h2 : p - q < 32768) :
    near q (UInt16.ofInt p) = p := by
  unfold near
  rw [asI16_sub_ofInt h1 h2]
  omega

/-- Two numbers of one half turn from `lo` on are compared by their distances from it. -/
theorem asI16_sub_of_lt {lo x y : UInt16} (hx : (x - lo).toNat < 32768)
    (hy : (y - lo).toNat < 32768) : asI16 (y - x) = ((y - lo).toNat : Int) - (x - lo).toNat := by
  have hsub := toNat_sub y x
  have hxs := toNat_sub x lo
  have hys := toNat_sub y lo
  unfold asI16
  split <;> omega

/-! ### Low bits

A table of `2 ^ k` entries with `k ≤ 16` can be indexed by the wrapped number as
well as by the position: the low `k` bits are the same.
-/

theorem ofInt_mod_two_pow {k : Nat} (hk : k ≤ 16) (p : Int) :
    (((UInt16.ofInt p).toNat % 2 ^ k : Nat) : Int) = p % (2 ^ k : Nat) := by
  have hdvd : ((2 ^ k : Nat) : Int) ∣ 65536 := by
    exact Int.natCast_dvd_natCast.mpr (Nat.pow_dvd_pow 2 hk : 2 ^ k ∣ 2 ^ 16)
  rw [Int.natCast_mod, toNat_ofInt, Int.emod_emod_of_dvd p hdvd]

theorem ofInt_mod_eq_iff {k : Nat} (hk : k ≤ 16) {p q : Int} :
    (UInt16.ofInt p).toNat % 2 ^ k = (UInt16.ofInt q).toNat % 2 ^ k
      ↔ p % (2 ^ k : Nat) = q % (2 ^ k : Nat) := by
  rw [← ofInt_mod_two_pow hk p, ← ofInt_mod_two_pow hk q]
  omega

/-- Numbers less than a table apart have different entries. -/
theorem mod_ne_of_near {k : Nat} {x y : UInt16} (hne : x ≠ y) (hlt : (x - y).toNat < 2 ^ k) :
    x.toNat % 2 ^ k ≠ y.toNat % 2 ^ k := by
  intro hmod
  have hx := x.toNat_lt
  have hy := y.toNat_lt
  rcases Nat.le_total k 16 with hk | hk
  · have hdvd : ((2 ^ k : Nat) : Int) ∣ 65536 := by
      exact Int.natCast_dvd_natCast.mpr (Nat.pow_dvd_pow 2 hk : 2 ^ k ∣ 2 ^ 16)
    have hsub : ((x.toNat : Int) - y.toNat) % (2 ^ k : Nat) = 0 := by
      rw [← Int.emod_eq_emod_iff_emod_sub_eq_zero, ← Int.natCast_mod, ← Int.natCast_mod, hmod]
    have hdist : ((x - y).toNat : Int) % (2 ^ k : Nat) = 0 := by
      rw [toNat_sub, Int.emod_emod_of_dvd _ hdvd, hsub]
    rw [← Int.natCast_mod, Nat.mod_eq_of_lt hlt] at hdist
    have hback := toNat_sub x y
    exact hne (eq_iff_toNat.mpr (by omega))
  · -- a table with an entry for every number
    have hpow : 2 ^ 16 ≤ 2 ^ k := Nat.pow_le_pow_right (by omega) hk
    rw [Nat.mod_eq_of_lt (by omega), Nat.mod_eq_of_lt (by omega)] at hmod
    exact hne (UInt16.toNat_inj.mp hmod)

end Serial
