/-
Running averages in whole numbers.

`update k s x` moves the average `s` one part in `k + 1` towards the sample `x`, and
rounds each of its two parts down, as integer code does.  A step can lose almost two
units that way, and the losses of earlier steps are carried on.  They do not pile up:
what is carried on shrinks as fast as it grows once the average is `2 * k` below the
samples, so that far and no further it can fall under them.
-/
import Mathlib.Algebra.Ring.Nat
import Mathlib.Tactic.Ring

namespace Average

/-- The average `s`, moved one part in `k + 1` towards the sample `x`. -/
def update (k s x : Nat) : Nat := s * k / (k + 1) + x / (k + 1)

variable {k s x : Nat}

/-- The average does not pass a bound above the samples. -/
theorem update_le {hi : Nat} (hs : s ≤ hi) (hx : x ≤ hi) : update k s x ≤ hi := by
  refine Nat.le_of_mul_le_mul_right ?_ (Nat.succ_pos k)
  calc update k s x * (k + 1)
      = s * k / (k + 1) * (k + 1) + x / (k + 1) * (k + 1) := Nat.add_mul _ _ _
    _ ≤ s * k + x := Nat.add_le_add (Nat.div_mul_le_self _ _) (Nat.div_mul_le_self _ _)
    _ ≤ hi * k + hi := Nat.add_le_add (Nat.mul_le_mul_right k hs) hx
    _ = hi * (k + 1) := (Nat.mul_succ hi k).symm

/-- The average does not fall more than `2 * k` under the samples. -/
theorem le_update {lo : Nat} (hs : lo ≤ s + 2 * k) (hx : lo ≤ x) :
    lo ≤ update k s x + 2 * k := by
  have hpart : ∀ n, n ≤ n / (k + 1) * (k + 1) + k := by
    intro n
    have hdiv := Nat.div_add_mod n (k + 1)
    have hmod : n % (k + 1) < k + 1 := Nat.mod_lt n (Nat.succ_pos k)
    rw [Nat.mul_comm] at hdiv
    omega
  refine Nat.le_of_mul_le_mul_right ?_ (Nat.succ_pos k)
  calc lo * (k + 1) = lo * k + lo := Nat.mul_succ lo k
    _ ≤ (s + 2 * k) * k + x := Nat.add_le_add (Nat.mul_le_mul_right k hs) hx
    _ = s * k + x + 2 * k * k := by ring
    _ ≤ s * k / (k + 1) * (k + 1) + k + (x / (k + 1) * (k + 1) + k) + 2 * k * k :=
        Nat.add_le_add_right (Nat.add_le_add (hpart _) (hpart _)) _
    _ = (update k s x + 2 * k) * (k + 1) := by
        unfold update
        ring

end Average
