/-
Flat rings whose size is a power of two.

A ring of `2 ^ bits` cells is read and written at any natural index, of which
only the low `bits` bits matter.  The size is part of the type of the cell
vector, so no index can be out of range and no write can change the size.
-/
import Mathlib.Data.Int.Interval
import Mathlib.Data.Int.ModEq
import Mathlib.Data.Nat.Count
import Mathlib.Data.Nat.Log
import Mathlib.Order.ConditionallyCompleteLattice.Finset
import Mathlib.Data.Int.ConditionallyCompleteOrder

/-- Two positions in the same residue class less than `n` apart are the same. -/
theorem Int.eq_of_emod_eq_of_lt {n p q : Int} (h : p % n = q % n) (h1 : p - q < n)
    (h2 : q - p < n) : p = q := by
  have hdvd : n ∣ p - q := Int.ModEq.dvd h.symm
  have hzero : p - q = 0 := Int.eq_zero_of_abs_lt_dvd hdvd (abs_lt.mpr ⟨by omega, h1⟩)
  omega

/-- A table of `2 ^ bits` cells indexed by the low bits of a number. -/
structure SlotRing (α : Type) where
  bits : Nat
  cells : Vector α (2 ^ bits)

namespace SlotRing

variable {α : Type}

/-- The ring with `x` in every cell. -/
def replicate (bits : Nat) (x : α) : SlotRing α := ⟨bits, Vector.replicate (2 ^ bits) x⟩

/-- The number of cells. -/
def capacity (r : SlotRing α) : Nat := 2 ^ r.bits

theorem capacity_pos (r : SlotRing α) : 0 < r.capacity := Nat.two_pow_pos r.bits

/-- The cell an index falls on: `k & (capacity - 1)`. -/
def index (bits k : Nat) : Nat := k &&& (2 ^ bits - 1)

theorem index_eq_mod (bits k : Nat) : index bits k = k % 2 ^ bits :=
  Nat.and_two_pow_sub_one_eq_mod k bits

theorem index_lt (bits k : Nat) : index bits k < 2 ^ bits := by
  rw [index_eq_mod]
  exact Nat.mod_lt k (Nat.two_pow_pos bits)

def get (r : SlotRing α) (k : Nat) : α := r.cells.get ⟨index r.bits k, index_lt r.bits k⟩

def set (r : SlotRing α) (k : Nat) (x : α) : SlotRing α :=
  ⟨r.bits, r.cells.set (index r.bits k) x (index_lt r.bits k)⟩

theorem get_eq_getElem (r : SlotRing α) {k : Nat} (h : index r.bits k < 2 ^ r.bits) :
    r.get k = r.cells[index r.bits k] := rfl

@[simp] theorem get_replicate (b : Nat) (x : α) (k : Nat) : (replicate b x).get k = x := by
  rw [get_eq_getElem _ (index_lt b k)]
  simp only [replicate, Vector.getElem_replicate]

/-- Indices that agree on the low bits read the same cell. -/
theorem get_congr (r : SlotRing α) {j k : Nat} (h : j % r.capacity = k % r.capacity) :
    r.get j = r.get k := by
  have hidx : index r.bits j = index r.bits k := by
    rw [index_eq_mod, index_eq_mod]
    exact h
  unfold get
  congr 2

theorem get_set (r : SlotRing α) (j k : Nat) (x : α) :
    (r.set j x).get k = if j % r.capacity = k % r.capacity then x else r.get k := by
  have hk := index_lt r.bits k
  rw [get_eq_getElem (r.set j x) hk, get_eq_getElem r hk]
  show (r.cells.set (index r.bits j) x (index_lt r.bits j))[index r.bits k] = _
  rw [Vector.getElem_set]
  simp only [index_eq_mod]
  rfl

@[simp] theorem get_set_self (r : SlotRing α) (k : Nat) (x : α) : (r.set k x).get k = x := by
  rw [get_set, if_pos rfl]

theorem get_set_of_eq (r : SlotRing α) {j k : Nat} (x : α)
    (h : j % r.capacity = k % r.capacity) : (r.set j x).get k = x := by
  rw [get_set, if_pos h]

theorem get_set_of_ne (r : SlotRing α) {j k : Nat} (x : α)
    (h : j % r.capacity ≠ k % r.capacity) : (r.set j x).get k = r.get k := by
  rw [get_set, if_neg h]

/-! ### Counting cells -/

/-- How many cells satisfy `p`. -/
def count (r : SlotRing α) (p : α → Bool) : Nat := r.cells.countP p

@[simp] theorem count_replicate (b : Nat) (x : α) (p : α → Bool) (h : p x = false) :
    (replicate b x).count p = 0 := by
  simp [count, replicate, Vector.countP_replicate, h]

/-- A write moves the count by what the old and the new cell contribute. -/
theorem count_set (r : SlotRing α) (k : Nat) (x : α) (p : α → Bool) :
    (r.set k x).count p + (if p (r.get k) then 1 else 0)
      = r.count p + (if p x then 1 else 0) := by
  have hle : (if p (r.get k) then 1 else 0) ≤ r.count p := by
    by_cases hp : p (r.get k) = true
    · rw [if_pos hp]
      exact Vector.countP_pos_iff.mpr ⟨r.get k, Vector.getElem_mem _, hp⟩
    · simp [hp]
  have hset : (r.set k x).count p
      = (r.count p - if p (r.get k) then 1 else 0) + if p x then 1 else 0 :=
    Vector.countP_set (index_lt r.bits k)
  omega

theorem get_of_lt (r : SlotRing α) {k : Nat} (h : k < 2 ^ r.bits) : r.get k = r.cells[k] := by
  have hidx : index r.bits k = k := by rw [index_eq_mod, Nat.mod_eq_of_lt h]
  rw [get_eq_getElem r (index_lt r.bits k)]
  simp only [hidx]

theorem count_eq_card_range (r : SlotRing α) (p : α → Bool) :
    r.count p = ((Finset.range r.capacity).filter fun k => p (r.get k) = true).card := by
  have hlist : r.cells.toList = (List.range r.capacity).map r.get := by
    refine List.ext_getElem (by simp [capacity]) fun k h1 h2 => ?_
    have hk : k < 2 ^ r.bits := by simpa using h1
    rw [Vector.getElem_toList, List.getElem_map, List.getElem_range, r.get_of_lt hk]
  rw [← Nat.count_eq_card_filter_range, Nat.count, count, ← Vector.countP_toList, hlist,
    List.countP_map]
  simp only [Function.comp_def, Bool.decide_eq_true]

/-- Any run of `n` consecutive positions meets every residue modulo `n` exactly
once, so counting residues is counting positions. -/
theorem card_filter_range {n : Nat} (hn : 0 < n) (P : Nat → Prop) [DecidablePred P] (lo : Int) :
    ((Finset.range n).filter P).card
      = ((Finset.Ico lo (lo + n)).filter fun q : Int => P (q % (n : Int)).toNat).card := by
  have hpos : (0 : Int) < n := by exact_mod_cast hn
  have hinj : Set.InjOn (fun q : Int => (q % (n : Int)).toNat) (Finset.Ico lo (lo + n)) := by
    intro x hx y hy hxy
    simp only [Finset.coe_Ico, Set.mem_Ico] at hx hy
    have h1 := Int.emod_nonneg x (ne_of_gt hpos)
    have h2 := Int.emod_nonneg y (ne_of_gt hpos)
    have hmod : x % (n : Int) = y % (n : Int) := by
      simp only at hxy
      omega
    exact Int.eq_of_emod_eq_of_lt hmod (by omega) (by omega)
  have himg : (Finset.Ico lo (lo + n)).image (fun q : Int => (q % (n : Int)).toNat)
      = Finset.range n := by
    have h := Int.image_Ico_emod lo n hpos.le
    have hcomp : (fun q : Int => (q % (n : Int)).toNat)
        = Int.toNat ∘ fun q : Int => q % (n : Int) := rfl
    rw [hcomp, ← Finset.image_image, h]
    ext k
    simp only [Finset.mem_image, Finset.mem_Ico, Finset.mem_range]
    constructor
    · rintro ⟨x, hx, rfl⟩
      omega
    · intro hk
      exact ⟨k, by omega, by omega⟩
  rw [← himg, Finset.filter_image, Finset.card_image_of_injOn]
  exact hinj.mono (Finset.coe_subset.mpr (Finset.filter_subset _ _))

/-- The count, over any run of `capacity` consecutive positions. -/
theorem count_eq_card (r : SlotRing α) (p : α → Bool) (lo : Int) :
    r.count p = ((Finset.Ico lo (lo + r.capacity)).filter
      fun q : Int => p (r.get (q % (r.capacity : Int)).toNat) = true).card := by
  rw [count_eq_card_range]
  exact card_filter_range r.capacity_pos (fun k => p (r.get k) = true) lo

end SlotRing
