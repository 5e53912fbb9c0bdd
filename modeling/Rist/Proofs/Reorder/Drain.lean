/-
`drain_ready` refines the window, and its fuel is never the reason it stops.

One turn of the loop looks only at the head slot.  On a buffer that stands for a
window it does what the window's turn does, so a whole drain does too.  On any
buffer at all the loop ends by itself: every turn brings the base one number
closer to the highest one, and past that the first test returns.
-/
import Rist.Proofs.Reorder.Insert

namespace Rist

open Serial

namespace ReorderBuffer

variable {b : ReorderBuffer}

/-! ### What one turn does -/

/-- A turn that produces something moves the base by one and writes only the slot
it looked at. -/
theorem drainStep_cases {now : Instant} {b' : ReorderBuffer} {item : DrainItem}
    (h : b.drainStep now = some (b', item)) :
    ∃ base highest s, b.baseSeq = some base ∧ b.highestSeq = some highest ∧
      asI16 (base - highest) ≤ 0 ∧
      b' = { b.setSlot base s with baseSeq := some (base + 1) } := by
  unfold drainStep at h
  split at h
  · rename_i base highest hbase hhigh
    split at h
    · simp at h
    · rename_i hle
      refine ⟨base, highest, ?_⟩
      split at h
      · simp only [Option.some.injEq, Prod.mk.injEq] at h
        exact ⟨_, hbase, hhigh, by omega, h.1.symm⟩
      · split at h
        · split at h
          · simp only [Option.some.injEq, Prod.mk.injEq] at h
            exact ⟨_, hbase, hhigh, by omega, h.1.symm⟩
          · simp at h
        · split at h
          · simp only [Option.some.injEq, Prod.mk.injEq] at h
            exact ⟨_, hbase, hhigh, by omega, h.1.symm⟩
          · simp at h
        · simp at h
  · simp at h

theorem drainStep_capacity {now : Instant} {b' : ReorderBuffer} {item : DrainItem}
    (h : b.drainStep now = some (b', item)) : b'.capacity = b.capacity := by
  obtain ⟨base, highest, s, -, -, -, rfl⟩ := drainStep_cases h
  rfl

theorem drainStep_bufferTime {now : Instant} {b' : ReorderBuffer} {item : DrainItem}
    (h : b.drainStep now = some (b', item)) : b'.bufferTime = b.bufferTime := by
  obtain ⟨base, highest, s, -, -, -, rfl⟩ := drainStep_cases h
  rfl

theorem drainLoop_capacity (now : Instant) : ∀ (fuel : Nat) (b : ReorderBuffer),
    (drainLoop now fuel b).1.capacity = b.capacity := by
  intro fuel
  induction fuel with
  | zero =>
      intro b
      rfl
  | succ fuel ih =>
      intro b
      rw [drainLoop]
      split
      · rfl
      · rename_i b' item hs
        exact (ih b').trans (drainStep_capacity hs)

/-! ### The loop ends by itself -/

/-- A turn uses up one unit of fuel, or was the last one possible. -/
theorem drainStep_fuel {now : Instant} {b' : ReorderBuffer} {item : DrainItem}
    (h : b.drainStep now = some (b', item)) :
    b'.drainStep now = none ∨ b'.drainFuel + 1 = b.drainFuel := by
  obtain ⟨base, highest, s, hbase, hhigh, hle, rfl⟩ := drainStep_cases h
  have hd := toNat_sub highest base
  have hd' := toNat_sub highest (base + 1)
  have hs := toNat_add base 1
  have hb := base.toNat_lt
  have hh := highest.toNat_lt
  have hone : ((1 : UInt16).toNat : Int) = 1 := rfl
  by_cases heq : base = highest
  · subst heq
    left
    have hpos : 0 < asI16 (base + 1 - base) := by
      have h1 := toNat_sub (base + 1) base
      unfold asI16
      split <;> omega
    unfold drainStep
    simp only [setSlot_highestSeq, hhigh, hpos, if_true]
  · right
    have hne : (base.toNat : Int) ≠ highest.toNat := fun hc => heq (eq_iff_toNat.mpr hc)
    simp only [drainFuel, hbase, hhigh, setSlot_highestSeq]
    omega

/-- **The fuel never cuts a drain short.**  After it, another turn would return at
once. -/
theorem drainLoop_done (now : Instant) : ∀ (fuel : Nat) (b : ReorderBuffer),
    b.drainFuel ≤ fuel → (drainLoop now fuel b).1.drainStep now = none := by
  intro fuel
  induction fuel with
  | zero =>
      intro b hfuel
      have hnone : b.baseSeq = none ∨ b.highestSeq = none := by
        unfold drainFuel at hfuel
        split at hfuel
        · omega
        · rename_i hno
          by_contra hc
          push Not at hc
          obtain ⟨base, hbase⟩ := Option.ne_none_iff_exists'.mp hc.1
          obtain ⟨highest, hhigh⟩ := Option.ne_none_iff_exists'.mp hc.2
          exact hno base highest hbase hhigh
      unfold drainLoop drainStep
      rcases hnone with hn | hn
      · simp [hn]
      · cases hb : b.baseSeq <;> simp [hn]
  | succ fuel ih =>
      intro b hfuel
      rw [drainLoop]
      split
      · rename_i hnone
        exact hnone
      · rename_i b' item hsome
        rcases drainStep_fuel hsome with hstop | hless
        · have hdone : drainLoop now fuel b' = (b', []) := by
            cases fuel with
            | zero => rfl
            | succ n => rw [drainLoop, hstop]
          rw [hdone]
          exact hstop
        · exact ih b' (by omega)

theorem drainReady_done (b : ReorderBuffer) (now : Instant) :
    (b.drainReady now).1.drainStep now = none :=
  drainLoop_done now b.drainFuel b (Nat.le_refl _)

/-- A drain that produces nothing leaves the buffer as it was, and its first turn
already returned. -/
theorem drainReady_nil_iff (b : ReorderBuffer) (now : Instant) :
    (b.drainReady now).2 = [] ↔ b.drainStep now = none := by
  unfold drainReady
  cases hf : b.drainFuel with
  | zero =>
      have := drainLoop_done now 0 b (by omega)
      simpa [drainLoop] using this
  | succ n =>
      rw [drainLoop]
      cases hs : b.drainStep now with
      | none => simp
      | some r => simp

theorem drainReady_of_none {now : Instant} (h : b.drainStep now = none) :
    b.drainReady now = (b, []) := by
  unfold drainReady
  cases b.drainFuel with
  | zero => rfl
  | succ n => rw [drainLoop, h]

/-! ### Refinement -/

variable {w : Window}

/-- Giving up the head: its slot is emptied and the base moves on. -/
theorem Refines.pop (h : Refines b w) (hne : w.base ≤ w.high) {s : Slot}
    (hs : s.state = .empty) :
    Refines { b.setSlot (UInt16.ofInt w.base) s with
      baseSeq := some (UInt16.ofInt w.base + 1) } (w.slide (w.base + 1)) := by
  have hlt := h.wf.high_lt
  refine ⟨h.bits, Window.slide_wf h.wf (by omega) (by omega), ?_, h.high, ?_⟩
  · simp only [Window.slide]
    rw [ofInt_add_one]
  · intro q hq1 hq2
    replace hq1 : w.base + 1 ≤ q := hq1
    replace hq2 : q < w.base + 1 + b.capacity := hq2
    show Cell.Shows _ _ ((b.setSlot _ s).slot _)
    simp only [Window.slide]
    rw [if_neg (by omega)]
    by_cases hq : q = w.base + b.capacity
    · -- the position one ring ahead has the slot just emptied
      subst hq
      rw [slot_setSlot h.bits, if_pos (Int.add_emod_right _ _).symm,
        h.wf.outside _ (Or.inr (by omega))]
      exact hs
    · rw [slot_setSlot_ne h.bits s (by omega) (by omega) (by omega)]
      exact h.cells q (by omega) (by omega)

/-- **A turn of the drain loop refines the window's turn.** -/
theorem drainStep_refines (h : Refines b w) (now : Instant) :
    (b.drainStep now = none ∧ w.drainStep b.bufferTime now = none) ∨
    ∃ b' w' item, b.drainStep now = some (b', item) ∧
      w.drainStep b.bufferTime now = some (w', item) ∧ Refines b' w' := by
  have hcap := capacity_le h.bits
  have hlo := h.wf.base_le
  have hhi := h.wf.high_lt
  have hsigned : asI16 (UInt16.ofInt w.base - UInt16.ofInt w.high) = w.base - w.high :=
    asI16_sub_ofInt (by omega) (by omega)
  unfold drainStep Window.drainStep
  rw [h.base, h.high]
  simp only [hsigned]
  by_cases hd : w.high < w.base
  · rw [if_pos (by omega), if_pos hd]
    exact Or.inl ⟨rfl, rfl⟩
  · rw [if_neg (by omega), if_neg hd]
    have hc := h.cells w.base (Int.le_refl _) (by omega)
    cases hcell : w.cell w.base with
    | empty => exact absurd hcell (h.wf.inside w.base (Int.le_refl _) (by omega))
    | filled d a =>
        rw [hcell] at hc
        rw [show b.slot (UInt16.ofInt w.base) = ⟨UInt16.ofInt w.base, .filled d a⟩ from hc]
        simp only [ne_eq, not_true_eq_false, if_false]
        by_cases ht : b.bufferTime ≤ now - a
        · rw [if_pos ht, if_pos ht]
          exact Or.inr ⟨_, _, _, rfl, rfl, h.pop (by omega) rfl⟩
        · rw [if_neg ht, if_neg ht]
          exact Or.inl ⟨rfl, rfl⟩
    | gap t =>
        rw [hcell] at hc
        rw [show b.slot (UInt16.ofInt w.base) = ⟨UInt16.ofInt w.base, .gap t⟩ from hc]
        simp only [ne_eq, not_true_eq_false, if_false]
        by_cases ht : b.bufferTime ≤ now - t
        · rw [if_pos ht, if_pos ht]
          exact Or.inr ⟨_, _, _, rfl, rfl, h.pop (by omega) rfl⟩
        · rw [if_neg ht, if_neg ht]
          exact Or.inl ⟨rfl, rfl⟩
    | hole =>
        rw [hcell] at hc
        rw [if_pos hc.1]
        exact Or.inr ⟨_, _, _, rfl, rfl, h.pop (by omega) rfl⟩

end ReorderBuffer

/-- The window's drain loop, for at most `fuel` turns. -/
def Window.drainLoop (hold : Duration) (now : Instant) : Nat → Window → Window × List DrainItem
  | 0, w => (w, [])
  | fuel + 1, w =>
    match w.drainStep hold now with
    | none => (w, [])
    | some (w, item) =>
      let (w, items) := drainLoop hold now fuel w
      (w, item :: items)

namespace ReorderBuffer

/-- **A drain refines the window's drain.** -/
theorem drainLoop_refines (now : Instant) : ∀ (fuel : Nat) {b : ReorderBuffer} {w : Window},
    Refines b w →
    Refines (drainLoop now fuel b).1 (w.drainLoop b.bufferTime now fuel).1 ∧
    (drainLoop now fuel b).2 = (w.drainLoop b.bufferTime now fuel).2 ∧
    (drainLoop now fuel b).1.capacity = b.capacity ∧
    (drainLoop now fuel b).1.bufferTime = b.bufferTime := by
  intro fuel
  induction fuel with
  | zero => intro b w h; exact ⟨h, rfl, rfl, rfl⟩
  | succ fuel ih =>
      intro b w h
      rcases drainStep_refines h now with ⟨hb, hw⟩ | ⟨b', w', item, hb, hw, h'⟩
      · rw [drainLoop, Window.drainLoop, hb, hw]
        exact ⟨h, rfl, rfl, rfl⟩
      · obtain ⟨hr, hitems, hcap, htime⟩ := ih h'
        rw [drainStep_bufferTime hb] at hr hitems htime
        rw [drainStep_capacity hb] at hcap
        rw [drainLoop, Window.drainLoop, hb, hw]
        exact ⟨hr, by simp only [hitems], hcap, htime⟩

theorem drainReady_refines {b : ReorderBuffer} {w : Window} (h : Refines b w) (now : Instant) :
    Refines (b.drainReady now).1 (w.drainLoop b.bufferTime now b.drainFuel).1 ∧
    (b.drainReady now).2 = (w.drainLoop b.bufferTime now b.drainFuel).2 := by
  obtain ⟨h1, h2, -, -⟩ := drainLoop_refines now b.drainFuel h
  exact ⟨h1, h2⟩

end ReorderBuffer

end Rist
