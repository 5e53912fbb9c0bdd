/-
Seats with a hold-down.

A seat is held by someone, or by nobody yet, and remembers when its holder was last
heard.  Another may take it only when nobody holds it or the holder has been silent
for the grace time.  `Held` ties a seat to the log of everyone ever heard in it:
whoever was heard less than the grace time ago is still the holder.  The holder is
allowed to change without being heard, so a seat can be taken, expire and be taken
back, and `Held` survives each of these.
-/
import Mathlib.Data.List.Basic
import Mathlib.Order.Basic
import Mathlib.Order.Nat

namespace HoldDown

/-- Who holds the seat, and when it was last live. -/
structure Seat (κ : Type) where
  holder : Option κ
  live : Option Nat

variable {κ : Type} {grace : Nat} {s : Seat κ} {log : List (κ × Nat)} {clock : Nat}

/-- The seat has been silent for the grace time at `t`. -/
def Silent (grace : Nat) (live : Option Nat) (t : Nat) : Prop :=
  ∀ l, live = some l → l + grace ≤ t

/-- `k` may take the seat, or already holds it. -/
def Admits (grace : Nat) (s : Seat κ) (k : κ) (t : Nat) : Prop :=
  s.holder = none ∨ s.holder = some k ∨ Silent grace s.live t

/-- The seat and the log of everyone heard in it, at time `clock`. -/
structure Held (grace : Nat) (s : Seat κ) (log : List (κ × Nat)) (clock : Nat) : Prop where
  live_le : ∀ l, s.live = some l → l ≤ clock
  /-- The last time the seat was live is in the log. -/
  logged : ∀ l, s.live = some l → ∃ k, (k, l) ∈ log
  /-- Nothing in the log is later than that. -/
  covered : ∀ e ∈ log, ∃ l, s.live = some l ∧ e.2 ≤ l
  holder : ∀ e ∈ log, s.holder = some e.1 ∨ e.2 + grace ≤ clock

theorem held_new (holder : Option κ) (clock : Nat) : Held grace ⟨holder, none⟩ [] clock :=
  ⟨by simp, by simp, by simp, by simp⟩

/-- Time passes. -/
theorem Held.wait (h : Held grace s log clock) {t : Nat} (ht : clock ≤ t) :
    Held grace s log t := by
  refine ⟨fun l hl => (h.live_le l hl).trans ht, h.logged, h.covered, ?_⟩
  intro e he
  exact (h.holder e he).imp_right fun hold => hold.trans ht

/-- Everything heard in a seat that is silent is old. -/
theorem Held.old_of_silent (h : Held grace s log clock) {t : Nat} (hs : Silent grace s.live t) :
    ∀ e ∈ log, e.2 + grace ≤ t := by
  intro e he
  obtain ⟨l, hl, hle⟩ := h.covered e he
  exact (Nat.add_le_add_right hle grace).trans (hs l hl)

/-- **The hold-down.**  When `k` is admitted, everyone else was last heard at least
the grace time ago. -/
theorem Held.old_of_admits (h : Held grace s log clock) {k : κ} {t : Nat} (ht : clock ≤ t)
    (ha : Admits grace s k t) : ∀ e ∈ log, e.1 ≠ k → e.2 + grace ≤ t := by
  intro e he hne
  rcases h.holder e he with hh | hold
  · rcases ha with hnone | hk | hs
    · rw [hh] at hnone
      exact absurd hnone (by simp)
    · rw [hh] at hk
      exact absurd (Option.some.inj hk) hne
    · exact h.old_of_silent hs e he
  · exact hold.trans ht

/-- Someone admitted takes the seat, and need not be heard. -/
theorem Held.latch (h : Held grace s log clock) {k : κ} {t : Nat} (ht : clock ≤ t)
    (ha : Admits grace s k t) : Held grace ⟨some k, s.live⟩ log t := by
  have hw := h.wait ht
  refine ⟨hw.live_le, hw.logged, hw.covered, ?_⟩
  intro e he
  by_cases hk : e.1 = k
  · exact Or.inl (by rw [hk])
  · exact Or.inr (h.old_of_admits ht ha e he hk)

/-- The holder is heard. -/
theorem Held.hear (h : Held grace s log clock) {k : κ} (hk : s.holder = some k) {t : Nat}
    (ht : clock ≤ t) : Held grace ⟨some k, some t⟩ (log ++ [(k, t)]) t := by
  have hw := h.wait ht
  refine ⟨?_, ?_, ?_, ?_⟩
  · intro l hl
    exact ge_of_eq (Option.some.inj hl)
  · intro l hl
    obtain rfl := Option.some.inj hl
    exact ⟨k, by simp⟩
  · intro e he
    refine ⟨t, rfl, ?_⟩
    rcases List.mem_append.mp he with he | he
    · obtain ⟨l, hl, hle⟩ := h.covered e he
      exact hle.trans ((h.live_le l hl).trans ht)
    · exact le_of_eq (congrArg Prod.snd (List.mem_singleton.mp he))
  · intro e he
    rcases List.mem_append.mp he with he | he
    · exact (hw.holder e he).imp_left fun hh => hk.symm.trans hh
    · exact Or.inl (by rw [List.mem_singleton.mp he])

/-- A live seat's holder is the one it was heard from. -/
theorem Held.exists_recent (h : Held grace s log clock) {t : Nat} (ht : clock ≤ t)
    (hs : ¬Silent grace s.live t) : ∃ e ∈ log, s.holder = some e.1 ∧ t < e.2 + grace := by
  unfold Silent at hs
  push Not at hs
  obtain ⟨l, hl, hlt⟩ := hs
  obtain ⟨k, hk⟩ := h.logged l hl
  refine ⟨(k, l), hk, ?_, hlt⟩
  rcases h.holder (k, l) hk with hh | hold
  · exact hh
  · exact absurd (hold.trans ht) (not_le.mpr hlt)

end HoldDown
