/-
The reorder buffer as a window on the integer line.

`ReorderBuffer` keeps its packets in a ring and compares wrapped numbers.  What it
is for is simpler to say: there is an interval of positions `[base, high]`, each
position of it holds a packet or is waiting for one, and nothing is held outside.
`Window` is that, with integer positions and no ring, and `Refines` ties a buffer
to the window it stands for.  Its `cells` field is the whole ring argument: the
positions `base ≤ p < base + capacity` meet every slot once, so the buffer is
known slot by slot.

One position can be in a state the window idea has no room for.  `Cell.hole` is a
position whose slot carries another position's gap marker; how it comes about is
in `Proofs/Reorder/Insert.lean`.
-/
import Rist.Protocol.Reorder
import Mathlib.Logic.Function.Basic

namespace Rist

open Serial

/-- What a position of the window holds. -/
inductive Cell where
  | empty
  | gap (noticed : Instant)
  | hole
  | filled (data : Bytes) (arrival : Instant)
  deriving DecidableEq

namespace Cell

def isFilled : Cell → Bool
  | filled _ _ => true
  | _ => false

theorem isFilled_iff {c : Cell} : c.isFilled = true ↔ ∃ d a, c = filled d a := by
  cases c <;> simp [isFilled]

/-- The slot of sequence number `q` shows this cell. -/
def Shows : Cell → UInt16 → Slot → Prop
  | empty, _, s => s.state = .empty
  | gap t, q, s => s = ⟨q, .gap t⟩
  | hole, q, s => s.seq ≠ q ∧ ∃ t, s.state = .gap t
  | filled d a, q, s => s = ⟨q, .filled d a⟩

theorem Shows.isFilled {c : Cell} {q : UInt16} {s : Slot} (h : c.Shows q s) :
    s.state.isFilled = c.isFilled := by
  cases c with
  | empty => rw [show s.state = .empty from h]; rfl
  | gap t => rw [show s = ⟨q, .gap t⟩ from h]; rfl
  | hole =>
      obtain ⟨-, t, ht⟩ := h
      rw [ht]
      rfl
  | filled d a => rw [show s = ⟨q, .filled d a⟩ from h]; rfl

theorem Shows.seq_eq {c : Cell} {q : UInt16} {s : Slot} (h : c.Shows q s)
    (hf : s.state.isFilled = true) : s.seq = q := by
  rw [h.isFilled] at hf
  cases c with
  | filled d a => rw [show s = ⟨q, .filled d a⟩ from h]
  | empty => simp [Cell.isFilled] at hf
  | gap t => simp [Cell.isFilled] at hf
  | hole => simp [Cell.isFilled] at hf

end Cell

/-- The interval of positions a reorder buffer is responsible for. -/
structure Window where
  base : Int
  high : Int
  cell : Int → Cell

namespace Window

/-- An interval of at most `cap` positions, possibly empty, with every position
inside accounted for and nothing outside. -/
structure WF (cap : Int) (w : Window) : Prop where
  base_le : w.base ≤ w.high + 1
  high_lt : w.high < w.base + cap
  inside : ∀ p, w.base ≤ p → p ≤ w.high → w.cell p ≠ .empty
  outside : ∀ p, p < w.base ∨ w.high < p → w.cell p = .empty

/-- A packet that is held lies in the window. -/
theorem WF.mem_of_filled {cap : Int} {w : Window} (h : WF cap w) {p : Int}
    (hp : (w.cell p).isFilled = true) : w.base ≤ p ∧ p ≤ w.high := by
  by_contra hout
  rw [h.outside p (by omega)] at hp
  exact absurd hp (by simp [Cell.isFilled])

/-- How many packets are held at positions `lo ≤ p < hi`. -/
noncomputable def filledIn (w : Window) (lo hi : Int) : Nat :=
  ((Finset.Ico lo hi).filter fun p => (w.cell p).isFilled = true).card

/-- One packet alone. -/
def anchor (p : Int) (data : Bytes) (now : Instant) : Window where
  base := p
  high := p
  cell q := if q = p then .filled data now else .empty

/-- Put a packet at a position the window already covers. -/
def fill (w : Window) (p : Int) (data : Bytes) (now : Instant) : Window :=
  { w with cell := Function.update w.cell p (.filled data now) }

/-- Put a packet past the end and mark what it skipped. -/
def reach (w : Window) (p : Int) (data : Bytes) (now : Instant) : Window where
  base := w.base
  high := p
  cell q :=
    if q = p then .filled data now else if w.high < q ∧ q < p then .gap now else w.cell q

/-- Give up every position below `lo`. -/
def slide (w : Window) (lo : Int) : Window where
  base := lo
  high := w.high
  cell q := if q < lo then .empty else w.cell q

/-- The window after a jump out of a drained window by less than a whole ring:
the skipped positions are gaps, and the packet itself is not there. -/
def overrun (lo p : Int) (now : Instant) : Window where
  base := lo
  high := p
  cell q := if q = p then .hole else if lo ≤ q ∧ q < p then .gap now else .empty

def place (w : Window) (p : Int) (data : Bytes) (now : Instant) (o : InsertOutcome) :
    Window × InsertOutcome :=
  if p ≤ w.high then
    match w.cell p with
    | .filled _ _ => (w, { o with duplicate := true })
    | .gap _ => (w.fill p data now, { o with recovered := true })
    | _ => (w.fill p data now, o)
  else (w.reach p data now, { o with newGaps := o.newGaps + (p - w.high - 1).toNat })

/-- What a packet at position `p` does to the window. -/
noncomputable def insert (cap : Int) (w : Window) (p : Int) (data : Bytes) (now : Instant) :
    Window × InsertOutcome :=
  if p < w.base then (w, { stale := true })
  else if p < w.base + cap then w.place p data now {}
  else if w.base + cap ≤ p - (cap - 1) ∨ (w.base ≤ w.high ∧ w.high < p - (cap - 1)) then
    (anchor p data now, { overflowFlushed := w.filledIn w.base (w.base + cap) })
  else if w.base ≤ w.high then
    (w.slide (p - (cap - 1))).place p data now
      { overflowFlushed := w.filledIn w.base (p - (cap - 1)) }
  else (overrun (p - (cap - 1)) p now, { newGaps := (p - w.base).toNat })

/-- One turn of the drain loop. -/
def drainStep (hold : Duration) (w : Window) (now : Instant) : Option (Window × DrainItem) :=
  if w.high < w.base then none
  else
    match w.cell w.base with
    | .filled data arrival =>
      if hold ≤ now - arrival then
        some (w.slide (w.base + 1), .delivered data (UInt16.ofInt w.base) arrival)
      else none
    | .gap noticed =>
      if hold ≤ now - noticed then some (w.slide (w.base + 1), .lost) else none
    | .hole => some (w.slide (w.base + 1), .lost)
    | .empty => none

variable {cap : Int} {w : Window}

/-- A drained window, and a packet more than a ring ahead of it but less than two. -/
def Overruns (cap : Int) (w : Window) (p : Int) : Prop :=
  w.high < w.base ∧ w.base + cap ≤ p ∧ p < w.base + 2 * cap - 1

/-- **Everything an insert can do.** -/
theorem insert_cases (h : WF cap w) (p : Int) (data : Bytes) (now : Instant) :
    (p < w.base ∧ w.insert cap p data now = (w, { stale := true })) ∨
    (w.base ≤ p ∧ p ≤ w.high ∧ (w.cell p).isFilled = true ∧
      w.insert cap p data now = (w, { duplicate := true })) ∨
    (w.base ≤ p ∧ p ≤ w.high ∧ (w.cell p).isFilled = false ∧
      ∃ recovered, w.insert cap p data now = (w.fill p data now, { recovered })) ∨
    (w.base ≤ p ∧ w.high < p ∧ p < w.base + cap ∧
      w.insert cap p data now
        = (w.reach p data now, { newGaps := (p - w.high - 1).toNat })) ∨
    (w.base + cap ≤ p ∧ w.high < p - (cap - 1) ∧ ¬w.Overruns cap p ∧
      w.insert cap p data now
        = (anchor p data now, { overflowFlushed := w.filledIn w.base (w.base + cap) })) ∨
    (w.base + cap ≤ p ∧ p - (cap - 1) ≤ w.high ∧
      w.insert cap p data now
        = ((w.slide (p - (cap - 1))).reach p data now,
          { overflowFlushed := w.filledIn w.base (p - (cap - 1))
            newGaps := (p - w.high - 1).toNat })) ∨
    (w.Overruns cap p ∧
      w.insert cap p data now
        = (overrun (p - (cap - 1)) p now, { newGaps := (p - w.base).toNat })) := by
  have hlo := h.base_le
  have hhi := h.high_lt
  unfold insert Overruns
  by_cases hstale : p < w.base
  · exact Or.inl ⟨hstale, by rw [if_pos hstale]⟩
  rw [if_neg hstale]
  by_cases hin : p < w.base + cap
  · rw [if_pos hin]
    unfold place
    by_cases hp : p ≤ w.high
    · rw [if_pos hp]
      cases hcell : w.cell p with
      | filled d a => exact Or.inr (Or.inl ⟨by omega, hp, rfl, rfl⟩)
      | gap t => exact Or.inr (Or.inr (Or.inl ⟨by omega, hp, rfl, true, rfl⟩))
      | hole => exact Or.inr (Or.inr (Or.inl ⟨by omega, hp, rfl, false, rfl⟩))
      | empty => exact absurd hcell (h.inside p (by omega) hp)
    · rw [if_neg hp]
      refine Or.inr (Or.inr (Or.inr (Or.inl ⟨by omega, by omega, hin, ?_⟩)))
      simp
  rw [if_neg hin]
  by_cases hreset : w.base + cap ≤ p - (cap - 1) ∨ (w.base ≤ w.high ∧ w.high < p - (cap - 1))
  · rw [if_pos hreset]
    exact Or.inr (Or.inr (Or.inr (Or.inr (Or.inl ⟨by omega, by omega, by omega, rfl⟩))))
  rw [if_neg hreset]
  by_cases hne : w.base ≤ w.high
  · rw [if_pos hne]
    refine Or.inr (Or.inr (Or.inr (Or.inr (Or.inr (Or.inl ⟨by omega, by omega, ?_⟩)))))
    unfold place
    rw [if_neg (by simp only [slide]; omega)]
    simp [slide]
  · rw [if_neg hne]
    exact Or.inr (Or.inr (Or.inr (Or.inr (Or.inr (Or.inr ⟨by omega, rfl⟩)))))

/-- Everything a turn of the drain loop can produce. -/
theorem drainStep_cases {hold : Duration} {now : Instant} {w' : Window} {item : DrainItem}
    (hs : w.drainStep hold now = some (w', item)) :
    w.base ≤ w.high ∧ w' = w.slide (w.base + 1) ∧
    ((∃ data arrival, w.cell w.base = .filled data arrival ∧ hold ≤ now - arrival ∧
        item = .delivered data (UInt16.ofInt w.base) arrival) ∨
      (item = .lost ∧ (w.cell w.base).isFilled = false)) := by
  unfold drainStep at hs
  split at hs
  · simp at hs
  · rename_i hle
    refine ⟨by omega, ?_⟩
    cases hcell : w.cell w.base with
    | filled d a =>
        rw [hcell] at hs
        simp only at hs
        split at hs
        · rename_i hdue
          simp only [Option.some.injEq, Prod.mk.injEq] at hs
          exact ⟨hs.1.symm, Or.inl ⟨d, a, rfl, hdue, hs.2.symm⟩⟩
        · simp at hs
    | gap t =>
        rw [hcell] at hs
        simp only at hs
        split at hs
        · simp only [Option.some.injEq, Prod.mk.injEq] at hs
          exact ⟨hs.1.symm, Or.inr ⟨hs.2.symm, rfl⟩⟩
        · simp at hs
    | hole =>
        rw [hcell] at hs
        simp only [Option.some.injEq, Prod.mk.injEq] at hs
        exact ⟨hs.1.symm, Or.inr ⟨hs.2.symm, rfl⟩⟩
    | empty =>
        rw [hcell] at hs
        simp at hs

/-! ### The window operations keep the window well formed -/

theorem anchor_wf (hcap : 0 < cap) (p : Int) (data : Bytes) (now : Instant) :
    WF cap (anchor p data now) := by
  refine ⟨by simp [anchor], by simp [anchor]; omega, ?_, ?_⟩
  · intro q h1 h2
    have hq : q = p := by simp [anchor] at h1 h2; omega
    simp [anchor, hq]
  · intro q h
    have hq : q ≠ p := by simp [anchor] at h; omega
    simp [anchor, hq]

theorem fill_wf (h : WF cap w) {p : Int} (h1 : w.base ≤ p) (h2 : p ≤ w.high) (data : Bytes)
    (now : Instant) : WF cap (w.fill p data now) := by
  refine ⟨h.base_le, h.high_lt, ?_, ?_⟩
  · intro q hq1 hq2
    by_cases hqp : q = p
    · subst hqp
      simp [fill]
    · simpa [fill, Function.update_of_ne hqp] using h.inside q hq1 hq2
  · intro q hq
    have hqp : q ≠ p := by
      rintro rfl
      simp only [fill] at hq
      omega
    simpa [fill, Function.update_of_ne hqp] using h.outside q hq

theorem reach_wf (h : WF cap w) {p : Int} (h1 : w.high < p) (h2 : p < w.base + cap)
    (data : Bytes) (now : Instant) : WF cap (w.reach p data now) := by
  have hbase := h.base_le
  refine ⟨by simp [reach]; omega, by simpa [reach] using h2, ?_, ?_⟩
  · intro q hq1 hq2
    simp only [reach] at hq1 hq2 ⊢
    split_ifs with ha hb
    · simp
    · simp
    · exact h.inside q hq1 (by omega)
  · intro q hq
    simp only [reach] at hq ⊢
    rw [if_neg (by omega), if_neg (by omega)]
    exact h.outside q (by omega)

theorem slide_wf (h : WF cap w) {lo : Int} (h1 : w.base ≤ lo) (h2 : lo ≤ w.high + 1) :
    WF cap (w.slide lo) := by
  have hlt := h.high_lt
  refine ⟨h2, by simp [slide]; omega, ?_, ?_⟩
  · intro q hq1 hq2
    simp only [slide] at hq1 hq2 ⊢
    rw [if_neg (by omega)]
    exact h.inside q (by omega) hq2
  · intro q hq
    simp only [slide] at hq ⊢
    split_ifs with hlo
    · rfl
    · exact h.outside q (by omega)

theorem overrun_wf {lo p : Int} (h1 : lo ≤ p) (h2 : p < lo + cap) (now : Instant) :
    WF cap (overrun lo p now) := by
  refine ⟨by simp [overrun]; omega, by simpa [overrun] using h2, ?_, ?_⟩
  · intro q hq1 hq2
    simp only [overrun] at hq1 hq2 ⊢
    split_ifs with ha hb
    · simp
    · simp
    · omega
  · intro q hq
    simp only [overrun] at hq ⊢
    rw [if_neg (by omega), if_neg (by omega)]

theorem drainStep_wf (h : WF cap w) {hold : Duration} {now : Instant} {w' : Window}
    {item : DrainItem} (hs : w.drainStep hold now = some (w', item)) :
    w' = w.slide (w.base + 1) ∧ w.base ≤ w.high ∧ WF cap w' := by
  obtain ⟨hle, rfl, -⟩ := drainStep_cases hs
  exact ⟨rfl, hle, slide_wf h (by omega) (by omega)⟩

end Window

end Rist
