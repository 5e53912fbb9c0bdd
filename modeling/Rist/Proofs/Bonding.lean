/-
The merger passes every packet on exactly once.

A run of the merger is recorded with the positions its numbers stand for, seen from
the highest one, and with what it passed on.  The invariant `Mirrors` says that inside
the window a bit is set exactly when its position was passed on.  A position ahead of
the highest moves the window; the bits it recycles are those of the positions it jumps
over, which were never passed on.

So a copy is passed on exactly when its position was not before and the window still
reaches it, whatever path it came over.

In a debug build a copy exactly half the circle away stops the merger.  Any other is
counted once, as long as the counters last, and one that is dropped changes nothing else.
-/
import Rist.Lib.Run
import Rist.Protocol.Bonding

namespace Rist

open Serial

namespace BondingMerger

/-! ### Bits -/

theorem idx_ofInt_eq_iff {p q : Int} :
    idx (UInt16.ofInt p) = idx (UInt16.ofInt q) ↔ p % 1024 = q % 1024 := by
  rw [Fin.ext_iff]
  exact ofInt_mod_eq_iff (k := 10) (by decide)

theorem get_clearFrom (b : Bitmap bitmapWords) (highest : UInt16) (j : Fin (64 * bitmapWords)) :
    ∀ n, (clearFrom b highest n).get j = true ↔
      b.get j = true ∧ ∀ i, 1 ≤ i → i ≤ n → idx (highest + UInt16.ofNat i) ≠ j := by
  intro n
  induction n with
  | zero =>
      rw [clearFrom]
      exact ⟨fun h => ⟨h, fun i h1 h2 => absurd h1 (by omega)⟩, fun h => h.1⟩
  | succ n ih =>
      rw [clearFrom, Bitmap.get_clear, Bool.and_eq_true, ih, Bool.not_eq_true', decide_eq_false_iff_not]
      constructor
      · intro ⟨⟨hget, hbelow⟩, htop⟩
        refine ⟨hget, fun i h1 h2 => ?_⟩
        rcases Nat.le_succ_iff.mp h2 with h2 | rfl
        · exact hbelow i h1 h2
        · exact htop
      · intro ⟨hget, hall⟩
        exact ⟨⟨hget, fun i h1 h2 => hall i h1 (Nat.le_succ_of_le h2)⟩,
          hall (n + 1) (Nat.succ_pos n) (Nat.le_refl _)⟩

theorem isSeqMarked_markSeq (m : BondingMerger) (p q : Int) :
    (m.markSeq (UInt16.ofInt p)).isSeqMarked (UInt16.ofInt q) = true ↔
      m.isSeqMarked (UInt16.ofInt q) = true ∨ p % 1024 = q % 1024 := by
  unfold isSeqMarked markSeq
  rw [Bitmap.get_mark, Bool.or_eq_true, decide_eq_true_iff, idx_ofInt_eq_iff]

/-- The window after a jump from `h` to `p`: what it keeps, and nothing between. -/
theorem isSeqMarked_advanceWindow {m : BondingMerger} {h p q : Int}
    (hm : m.highestSeq = some (UInt16.ofInt h)) (hahead : h < p) (hnear : p - h < 32768)
    (hlo : p - 1024 < q) (hhi : q ≤ p) :
    (m.advanceWindow (UInt16.ofInt p - UInt16.ofInt h)).isSeqMarked (UInt16.ofInt q) = true ↔
      q ≤ h ∧ m.isSeqMarked (UInt16.ofInt q) = true := by
  have hadvance : ((UInt16.ofInt p - UInt16.ofInt h).toNat : Int) = p - h :=
    toNat_sub_ofInt (by omega) (by omega)
  unfold advanceWindow
  by_cases hjump : windowSize ≤ (UInt16.ofInt p - UInt16.ofInt h).toNat
  · rw [if_pos hjump]
    unfold windowSize at hjump
    unfold isSeqMarked clearBitmap
    simp only [Bitmap.get_empty]
    constructor
    · intro hc
      cases hc
    · intro ⟨hq, _⟩
      omega
  · rw [if_neg hjump]
    unfold windowSize at hjump
    unfold isSeqMarked
    simp only [hm, Option.getD_some]
    rw [get_clearFrom]
    constructor
    · intro ⟨hget, hcleared⟩
      refine ⟨?_, hget⟩
      -- a position past the old highest has been cleared
      by_contra hq
      have hi : (UInt16.ofNat (q - h).toNat).toNat = (q - h).toNat := ofNat_toNat_of_lt (by omega)
      apply hcleared (q - h).toNat (by omega) (by omega)
      rw [ofInt_add, hi]
      congr 2
      omega
    · intro ⟨hq, hget⟩
      refine ⟨hget, fun i h1 h2 => ?_⟩
      rw [ofInt_add, ofNat_toNat_of_lt (by omega), ne_eq, idx_ofInt_eq_iff]
      omega

/-! ### One packet -/

/-- What passing a packet on does to the counters. -/
structure Emits (m m' : BondingMerger) : Prop where
  emitted : m'.packetsEmitted = m.packetsEmitted + 1
  duplicates : m'.duplicatesDropped = m.duplicatesDropped
  late : m'.lateDropped = m.lateDropped

section

variable {m : BondingMerger} {h p : Int}

theorem process_first (hm : m.highestSeq = none) (data : Bytes) :
    ∃ m', m.process (UInt16.ofInt p) data = (m', some data) ∧ Emits m m' ∧
      m'.highestSeq = some (UInt16.ofInt p) ∧
      ∀ q, p - 1024 < q → q ≤ p → (m'.isSeqMarked (UInt16.ofInt q) = true ↔ q = p) := by
  unfold process
  rw [hm]
  refine ⟨_, rfl, ⟨rfl, rfl, rfl⟩, rfl, ?_⟩
  intro q hlo hhi
  show (BondingMerger.markSeq _ _).isSeqMarked _ = true ↔ _
  rw [isSeqMarked_markSeq]
  have hempty : (clearBitmap { m with highestSeq := some (UInt16.ofInt p) }).isSeqMarked
      (UInt16.ofInt q) = false := Bitmap.get_empty _
  have hsame : p % 1024 = q % 1024 ↔ q = p := by omega
  rw [hempty, hsame]
  simp

variable (hm : m.highestSeq = some (UInt16.ofInt h))
include hm

theorem process_ahead (hahead : h < p) (hnear : p - h < 32768) (data : Bytes) :
    ∃ m', m.process (UInt16.ofInt p) data = (m', some data) ∧ Emits m m' ∧
      m'.highestSeq = some (UInt16.ofInt p) ∧
      ∀ q, p - 1024 < q → q ≤ p → (m'.isSeqMarked (UInt16.ofInt q) = true ↔
        q = p ∨ (q ≤ h ∧ m.isSeqMarked (UInt16.ofInt q) = true)) := by
  have hdiff := asI16_sub_ofInt (p := p) (q := h) (by omega) hnear
  unfold process
  rw [hm]
  simp only [hdiff]
  rw [if_pos (by omega)]
  refine ⟨_, rfl, ⟨?_, ?_, ?_⟩, rfl, ?_⟩
  · show (m.advanceWindow _).packetsEmitted + 1 = _
    unfold advanceWindow
    split <;> rfl
  · show (m.advanceWindow _).duplicatesDropped = _
    unfold advanceWindow
    split <;> rfl
  · show (m.advanceWindow _).lateDropped = _
    unfold advanceWindow
    split <;> rfl
  · intro q hlo hhi
    show (BondingMerger.markSeq _ _).isSeqMarked _ = true ↔ _
    rw [isSeqMarked_markSeq]
    have hadvance := isSeqMarked_advanceWindow hm hahead hnear hlo hhi
    have hsame : p % 1024 = q % 1024 ↔ q = p := by omega
    rw [hsame, or_comm]
    exact or_congr_right hadvance

theorem process_late (hlate : p ≤ h - 1024) (hnear : -32768 < p - h) (data : Bytes) :
    m.process (UInt16.ofInt p) data = ({ m with lateDropped := m.lateDropped + 1 }, none) := by
  have hdiff := asI16_sub_ofInt (p := p) (q := h) (by omega) (by omega)
  unfold process
  rw [hm]
  simp only [hdiff]
  rw [if_neg (by omega), if_neg (by omega), if_pos (by unfold windowSize; omega)]

theorem process_seen (hlo : h - 1024 < p) (hhi : p ≤ h)
    (hseen : p = h ∨ m.isSeqMarked (UInt16.ofInt p) = true) (data : Bytes) :
    m.process (UInt16.ofInt p) data
      = ({ m with duplicatesDropped := m.duplicatesDropped + 1 }, none) := by
  have hdiff := asI16_sub_ofInt (p := p) (q := h) (by omega) (by omega)
  unfold process
  rw [hm]
  simp only [hdiff]
  rw [if_neg (by omega)]
  by_cases htop : p - h = 0
  · rw [if_pos htop]
  · rw [if_neg htop, if_neg (by unfold windowSize; omega), if_pos (hseen.resolve_left (by omega))]

theorem process_fill (hlo : h - 1024 < p) (hhi : p < h)
    (hnew : m.isSeqMarked (UInt16.ofInt p) = false) (data : Bytes) :
    ∃ m', m.process (UInt16.ofInt p) data = (m', some data) ∧ Emits m m' ∧
      m'.highestSeq = m.highestSeq ∧
      ∀ q, h - 1024 < q → q ≤ h → (m'.isSeqMarked (UInt16.ofInt q) = true ↔
        q = p ∨ m.isSeqMarked (UInt16.ofInt q) = true) := by
  have hdiff := asI16_sub_ofInt (p := p) (q := h) (by omega) (by omega)
  unfold process
  simp only [hm, hdiff]
  rw [if_neg (by omega), if_neg (by omega), if_neg (by unfold windowSize; omega),
    if_neg (by rw [hnew]; decide)]
  refine ⟨_, rfl, ⟨rfl, rfl, rfl⟩, hm, ?_⟩
  intro q hqlo hqhi
  show (BondingMerger.markSeq _ _).isSeqMarked _ = true ↔ _
  rw [isSeqMarked_markSeq, or_comm]
  have hsame : p % 1024 = q % 1024 ↔ q = p := by omega
  rw [hsame]

end

end BondingMerger

/-! ### Recorded runs -/

/-- A copy of a packet, with the path it came over. -/
structure Copy (κ : Type) where
  path : κ
  seq : UInt16
  data : Bytes

/-- A merger and the record of its run on the integer line. -/
structure Merging (κ : Type) where
  merger : BondingMerger
  /-- The position of the highest number. -/
  highest : Option Int
  /-- Where every copy stood, with its path. -/
  arrivals : List (κ × Int)
  /-- The positions passed on. -/
  emitted : List Int
  /-- The copies dropped although the window reached them. -/
  duplicates : Nat
  /-- The copies dropped behind the window. -/
  late : Nat

namespace Merging

variable {κ : Type}

def start : Merging κ := ⟨.new, none, [], [], 0, 0⟩

/-- The position of a number, seen from the highest one. -/
def position (s : Merging κ) (seq : UInt16) : Int :=
  match s.highest with
  | none => seq.toNat
  | some h => near h seq

/-- The position is 1024 or more behind the highest. -/
def Lags (s : Merging κ) (p : Int) : Prop := ∃ h ∈ s.highest, p ≤ h - 1024

instance (s : Merging κ) (p : Int) : Decidable (s.Lags p) :=
  Option.decidableExistsMem s.highest

/-- The position was not passed on yet, and the window reaches it or it is ahead. -/
def Fresh (s : Merging κ) (p : Int) : Prop := p ∉ s.emitted ∧ ¬s.Lags p

instance (s : Merging κ) (p : Int) : Decidable (s.Fresh p) :=
  inferInstanceAs (Decidable (p ∉ s.emitted ∧ ¬s.Lags p))

/-- The number is not exactly half the circle away from the highest. -/
def Sided (s : Merging κ) (c : Copy κ) : Prop :=
  ∀ h ∈ s.merger.highestSeq, c.seq - h ≠ 32768

-- not by search, which may find the one that tries every number
instance (s : Merging κ) (c : Copy κ) : Decidable (s.Sided c) :=
  Option.decidableForallMem s.merger.highestSeq

/-- One call of `process`.  The record is of what it returned. -/
def step (s : Merging κ) (c : Copy κ) : Merging κ :=
  let p := s.position c.seq
  let out := (s.merger.process c.seq c.data).2
  { merger := (s.merger.process c.seq c.data).1
    highest := some (s.highest.elim p (max p))
    arrivals := s.arrivals ++ [(c.path, p)]
    emitted := if out.isSome then s.emitted ++ [p] else s.emitted
    duplicates :=
      if out.isNone ∧ p ∈ s.emitted ∧ ¬s.Lags p then s.duplicates + 1 else s.duplicates
    late := if out.isNone ∧ s.Lags p then s.late + 1 else s.late }

/-- **The bitmap mirrors what was passed on.** -/
structure Mirrors (s : Merging κ) : Prop where
  highestSeq : s.merger.highestSeq = s.highest.map UInt16.ofInt
  waiting : s.highest = none → s.emitted = []
  below : ∀ h ∈ s.highest, ∀ p ∈ s.emitted, p ≤ h
  top : ∀ h ∈ s.highest, h ∈ s.emitted
  bits : ∀ h ∈ s.highest, ∀ p, h - 1024 < p → p ≤ h →
    (s.merger.isSeqMarked (UInt16.ofInt p) = true ↔ p ∈ s.emitted)
  nodup : s.emitted.Nodup
  arrived : ∀ p ∈ s.emitted, ∃ path, (path, p) ∈ s.arrivals
  packetsEmitted : s.merger.packetsEmitted = UInt64.ofNat s.emitted.length
  duplicatesDropped : s.merger.duplicatesDropped = UInt64.ofNat s.duplicates
  lateDropped : s.merger.lateDropped = UInt64.ofNat s.late

theorem start_mirrors : Mirrors (start : Merging κ) :=
  ⟨rfl, fun _ => rfl, nofun, nofun, nofun, List.nodup_nil, nofun, rfl, rfl, rfl⟩

variable {s : Merging κ} {c : Copy κ}

theorem ofInt_position (s : Merging κ) (seq : UInt16) : UInt16.ofInt (s.position seq) = seq := by
  unfold position
  split
  · rw [eq_iff_toNat, toNat_ofInt]
    have := seq.toNat_lt
    omega
  · exact ofInt_near _ seq

theorem position_bounds (hs : Mirrors s) (hsided : s.Sided c) {h : Int} (hh : s.highest = some h) :
    -32768 < s.position c.seq - h ∧ s.position c.seq - h < 32768 := by
  have hp : s.position c.seq = near h c.seq := by
    unfold position
    rw [hh]
  have hbounds := near_bounds h c.seq
  rw [hp]
  refine ⟨?_, hbounds.2⟩
  have hne : c.seq - UInt16.ofInt h ≠ 32768 := by
    refine hsided (UInt16.ofInt h) ?_
    rw [hs.highestSeq, hh]
    rfl
  -- the signed distance is -32768 for that number only
  have hdist : near h c.seq - h = asI16 (c.seq - UInt16.ofInt h) := by
    unfold near
    omega
  have hbits : (c.seq - UInt16.ofInt h).toNat ≠ 32768 := fun hc => hne (UInt16.toNat_inj.mp hc)
  have hlt := (c.seq - UInt16.ofInt h).toNat_lt
  rw [hdist] at hbounds ⊢
  unfold asI16 at hbounds ⊢
  split at hbounds <;> omega

/-- The record after a copy that is passed on. -/
theorem step_emit {m' : BondingMerger} (hout : s.merger.process c.seq c.data = (m', some c.data)) :
    s.step c = ⟨m', some (s.highest.elim (s.position c.seq) (max (s.position c.seq))),
      s.arrivals ++ [(c.path, s.position c.seq)], s.emitted ++ [s.position c.seq], s.duplicates,
      s.late⟩ := by
  unfold step
  simp [hout]

theorem step_duplicate {m' : BondingMerger} (hout : s.merger.process c.seq c.data = (m', none))
    (hmem : s.position c.seq ∈ s.emitted) (hlags : ¬s.Lags (s.position c.seq)) :
    s.step c = ⟨m', some (s.highest.elim (s.position c.seq) (max (s.position c.seq))),
      s.arrivals ++ [(c.path, s.position c.seq)], s.emitted, s.duplicates + 1, s.late⟩ := by
  unfold step
  simp [hout, hmem, hlags]

theorem step_late {m' : BondingMerger} (hout : s.merger.process c.seq c.data = (m', none))
    (hlags : s.Lags (s.position c.seq)) :
    s.step c = ⟨m', some (s.highest.elim (s.position c.seq) (max (s.position c.seq))),
      s.arrivals ++ [(c.path, s.position c.seq)], s.emitted, s.duplicates, s.late + 1⟩ := by
  unfold step
  simp [hout, hlags]

/-- A copy that is passed on leaves the record right. -/
theorem Mirrors.emit (hs : Mirrors s) {m' : BondingMerger} {h' : Int}
    (hout : s.merger.process c.seq c.data = (m', some c.data))
    (hemits : BondingMerger.Emits s.merger m') (hnew : s.position c.seq ∉ s.emitted)
    (hhigh : s.highest.elim (s.position c.seq) (max (s.position c.seq)) = h')
    (hseq : m'.highestSeq = some (UInt16.ofInt h')) (hbelow : ∀ p ∈ s.emitted, p ≤ h')
    (htop : h' ∈ s.emitted ++ [s.position c.seq])
    (hbits : ∀ q, h' - 1024 < q → q ≤ h' → (m'.isSeqMarked (UInt16.ofInt q) = true ↔
      q ∈ s.emitted ++ [s.position c.seq])) : Mirrors (s.step c) := by
  have hle : s.position c.seq ≤ h' := by
    rw [← hhigh]
    cases s.highest with
    | none => exact Int.le_refl _
    | some h => exact Int.le_max_left _ _
  rw [step_emit hout, hhigh]
  refine ⟨hseq, nofun, ?_, ?_, ?_, ?_, ?_, ?_, ?_, ?_⟩
  · intro h hh p hp
    cases hh
    rcases List.mem_append.mp hp with hp | hp
    · exact hbelow p hp
    · rw [List.mem_singleton.mp hp]
      exact hle
  · intro h hh
    cases hh
    exact htop
  · intro h hh
    cases hh
    exact hbits
  · exact List.nodup_append.mpr ⟨hs.nodup, by simp, fun p hp q hq hpq =>
      hnew (List.mem_singleton.mp hq ▸ hpq ▸ hp)⟩
  · intro p hp
    rcases List.mem_append.mp hp with hp | hp
    · obtain ⟨path, hpath⟩ := hs.arrived p hp
      exact ⟨path, List.mem_append_left _ hpath⟩
    · rw [List.mem_singleton.mp hp]
      exact ⟨c.path, List.mem_append_right _ (List.mem_singleton_self _)⟩
  · rw [hemits.emitted, hs.packetsEmitted, List.length_append, List.length_singleton,
      UInt64.ofNat_add]
    rfl
  · rw [hemits.duplicates]
    exact hs.duplicatesDropped
  · rw [hemits.late]
    exact hs.lateDropped

/-- A copy that is dropped leaves the window as it was. -/
theorem Mirrors.drop (hs : Mirrors s) {h : Int} (hh : s.highest = some h)
    (hle : s.position c.seq ≤ h) {d l : UInt64} {duplicates late : Nat}
    (hd : d = UInt64.ofNat duplicates) (hl : l = UInt64.ofNat late) (a : κ × Int) :
    Mirrors (⟨{ s.merger with duplicatesDropped := d, lateDropped := l },
      some (s.highest.elim (s.position c.seq) (max (s.position c.seq))), s.arrivals ++ [a],
      s.emitted, duplicates, late⟩ : Merging κ) := by
  have hhigh : s.highest.elim (s.position c.seq) (max (s.position c.seq)) = h := by
    rw [hh]
    exact Int.max_eq_right hle
  rw [hhigh, ← hh]
  refine ⟨hs.highestSeq, hs.waiting, hs.below, hs.top, hs.bits, hs.nodup, ?_, hs.packetsEmitted,
    hd, hl⟩
  intro p hp
  obtain ⟨path, hpath⟩ := hs.arrived p hp
  exact ⟨path, List.mem_append_left _ hpath⟩

/-- The first packet of all. -/
theorem Mirrors.first (hs : Mirrors s) (hnone : s.highest = none) :
    Mirrors (s.step c) ∧ (s.merger.process c.seq c.data).2 = some c.data := by
  have hm : s.merger.highestSeq = none := by
    rw [hs.highestSeq, hnone]
    rfl
  obtain ⟨m', hout, hemits, hseq, hbits⟩ :=
    BondingMerger.process_first (p := s.position c.seq) hm c.data
  rw [ofInt_position] at hout
  refine ⟨hs.emit hout hemits ?_ (by rw [hnone]; rfl) hseq ?_ ?_ ?_, by rw [hout]⟩
  · rw [hs.waiting hnone]
    exact List.not_mem_nil
  · rw [hs.waiting hnone]
    exact nofun
  · exact List.mem_append_right _ (List.mem_singleton_self _)
  · intro q hlo hhi
    rw [hbits q hlo hhi, hs.waiting hnone, List.nil_append, List.mem_singleton]

/-- A packet past the highest. -/
theorem Mirrors.ahead (hs : Mirrors s) {h : Int} (hh : s.highest = some h)
    (hahead : h < s.position c.seq) (hnear : s.position c.seq - h < 32768) :
    Mirrors (s.step c) ∧ (s.merger.process c.seq c.data).2 = some c.data ∧
      s.position c.seq ∉ s.emitted := by
  have hm : s.merger.highestSeq = some (UInt16.ofInt h) := by
    rw [hs.highestSeq, hh]
    rfl
  obtain ⟨m', hout, hemits, hseq, hbits⟩ := BondingMerger.process_ahead hm hahead hnear c.data
  rw [ofInt_position] at hout
  have hnew : s.position c.seq ∉ s.emitted := fun hmem =>
    absurd (hs.below h hh _ hmem) (by omega)
  have hhigh : s.highest.elim (s.position c.seq) (max (s.position c.seq)) = s.position c.seq := by
    rw [hh]
    exact Int.max_eq_left (Int.le_of_lt hahead)
  refine ⟨hs.emit hout hemits hnew hhigh hseq ?_ ?_ ?_, by rw [hout], hnew⟩
  · intro p hp
    exact Int.le_trans (hs.below h hh p hp) (Int.le_of_lt hahead)
  · exact List.mem_append_right _ (List.mem_singleton_self _)
  · intro q hlo hhi
    rw [hbits q hlo hhi, List.mem_append, List.mem_singleton, or_comm]
    refine or_congr_left ?_
    constructor
    · intro ⟨hq, hmark⟩
      exact (hs.bits h hh q (by omega) hq).mp hmark
    · intro hmem
      have hq := hs.below h hh q hmem
      exact ⟨hq, (hs.bits h hh q (by omega) hq).mpr hmem⟩

/-- A packet that fills a gap in the window. -/
theorem Mirrors.fill (hs : Mirrors s) {h : Int} (hh : s.highest = some h)
    (hlo : h - 1024 < s.position c.seq) (hhi : s.position c.seq ≤ h)
    (hnew : s.position c.seq ∉ s.emitted) :
    Mirrors (s.step c) ∧ (s.merger.process c.seq c.data).2 = some c.data := by
  have hm : s.merger.highestSeq = some (UInt16.ofInt h) := by
    rw [hs.highestSeq, hh]
    rfl
  have htop : s.position c.seq ≠ h := fun hc => hnew (hc ▸ hs.top h hh)
  have hunmarked : s.merger.isSeqMarked (UInt16.ofInt (s.position c.seq)) = false := by
    rw [← Bool.not_eq_true]
    exact fun hc => hnew ((hs.bits h hh _ hlo hhi).mp hc)
  obtain ⟨m', hout, hemits, hseq, hbits⟩ :=
    BondingMerger.process_fill hm hlo (by omega) hunmarked c.data
  rw [ofInt_position] at hout
  have hhigh : s.highest.elim (s.position c.seq) (max (s.position c.seq)) = h := by
    rw [hh]
    exact Int.max_eq_right hhi
  refine ⟨hs.emit hout hemits hnew hhigh (hseq.trans hm) (hs.below h hh) ?_ ?_, by rw [hout]⟩
  · exact List.mem_append_left _ (hs.top h hh)
  · intro q hqlo hqhi
    rw [hbits q hqlo hqhi, List.mem_append, List.mem_singleton, or_comm, hs.bits h hh q hqlo hqhi]

/-- **One call.**  A fresh position is passed on, any other is dropped and counted, and
the bitmap still mirrors the record. -/
theorem Mirrors.step (hs : Mirrors s) (hsided : s.Sided c) :
    Mirrors (s.step c) ∧ (s.merger.process c.seq c.data).2
      = if s.Fresh (s.position c.seq) then some c.data else none := by
  cases hh : s.highest with
  | none =>
      obtain ⟨hnext, hout⟩ := hs.first (c := c) hh
      have hfresh : s.Fresh (s.position c.seq) := by
        refine ⟨?_, ?_⟩
        · rw [hs.waiting hh]
          exact List.not_mem_nil
        · intro ⟨h, hmem, _⟩
          rw [hh] at hmem
          cases hmem
      exact ⟨hnext, by rw [hout, if_pos hfresh]⟩
  | some h =>
      obtain ⟨hlo, hhi⟩ := position_bounds hs hsided hh
      have hm : s.merger.highestSeq = some (UInt16.ofInt h) := by
        rw [hs.highestSeq, hh]
        rfl
      have hlags : s.Lags (s.position c.seq) ↔ s.position c.seq ≤ h - 1024 := by
        unfold Lags
        rw [hh]
        simp
      rcases Int.lt_or_le h (s.position c.seq) with hahead | hbehind
      · obtain ⟨hnext, hout, hnew⟩ := hs.ahead hh hahead hhi
        have hfresh : s.Fresh (s.position c.seq) := ⟨hnew, by rw [hlags]; omega⟩
        exact ⟨hnext, by rw [hout, if_pos hfresh]⟩
      by_cases hlate : s.position c.seq ≤ h - 1024
      · have hout := BondingMerger.process_late hm hlate hlo c.data
        rw [ofInt_position] at hout
        refine ⟨?_, ?_⟩
        · rw [step_late hout (hlags.mpr hlate)]
          refine hs.drop hh hbehind hs.duplicatesDropped ?_ _
          rw [hs.lateDropped, UInt64.ofNat_add]
          rfl
        · rw [hout, if_neg (fun hf => hf.2 (hlags.mpr hlate))]
      by_cases hmem : s.position c.seq ∈ s.emitted
      · have hseen := (hs.bits h hh _ (by omega) hbehind).mpr hmem
        have hout := BondingMerger.process_seen hm (by omega) hbehind (Or.inr hseen) c.data
        rw [ofInt_position] at hout
        refine ⟨?_, ?_⟩
        · rw [step_duplicate hout hmem (mt hlags.mp hlate)]
          refine hs.drop hh hbehind ?_ hs.lateDropped _
          rw [hs.duplicatesDropped, UInt64.ofNat_add]
          rfl
        · rw [hout, if_neg (fun hf => hf.1 hmem)]
      · obtain ⟨hnext, hout⟩ := hs.fill hh (by omega) hbehind hmem
        exact ⟨hnext, by rw [hout, if_pos ⟨hmem, mt hlags.mp hlate⟩]⟩

/-! ### Whole runs -/

/-- While no copy lags behind the window, everything that arrived was passed on. -/
theorem Mirrors.complete (hs : Mirrors s) (hsided : s.Sided c)
    (hlags : ¬s.Lags (s.position c.seq)) (hall : ∀ a ∈ s.arrivals, a.2 ∈ s.emitted) :
    ∀ a ∈ (s.step c).arrivals, a.2 ∈ (s.step c).emitted := by
  obtain ⟨-, hout⟩ := hs.step hsided
  by_cases hmem : s.position c.seq ∈ s.emitted
  · rw [if_neg (fun hf => hf.1 hmem)] at hout
    intro a ha
    unfold Merging.step
    simp only [hout, Option.isSome_none]
    rcases List.mem_append.mp ha with ha | ha
    · exact hall a ha
    · rw [List.mem_singleton.mp ha]
      exact hmem
  · rw [if_pos ⟨hmem, hlags⟩] at hout
    intro a ha
    unfold Merging.step
    simp only [hout, Option.isSome_some, if_true]
    rcases List.mem_append.mp ha with ha | ha
    · exact List.mem_append_left _ (hall a ha)
    · rw [List.mem_singleton.mp ha]
      exact List.mem_append_right _ (List.mem_singleton_self _)

/-- **Every packet is passed on exactly once.**  In every run, over any number of paths
and in any interleaving, a copy is passed on exactly when its position was not before
and is ahead of the window's end; the counters count what was dropped and why; and
while no copy lags, the positions passed on are those of all the paths together. -/
theorem merges_exactly (ops : List (Copy κ)) (hsided : Run.Along step Sided start ops) :
    Run.Along step (fun s c => s.merger.highestSeq = s.highest.map UInt16.ofInt ∧
      (s.merger.process c.seq c.data).2
        = if s.Fresh (s.position c.seq) then some c.data else none) start ops ∧
    (Run.final step start ops).merger.duplicatesDropped
      = UInt64.ofNat (Run.final step start ops).duplicates ∧
    (Run.final step start ops).merger.lateDropped = UInt64.ofNat (Run.final step start ops).late ∧
    (Run.final step start ops).emitted.Nodup ∧
    (Run.Along step (fun s c => ¬s.Lags (s.position c.seq)) start ops →
      ∀ p, p ∈ (Run.final step start ops).emitted ↔
        ∃ path, (path, p) ∈ (Run.final step start ops).arrivals) := by
  have hkeep : ∀ (s : Merging κ) c, Mirrors s → s.Sided c → Mirrors (s.step c) :=
    fun s c hs hc => (hs.step hc).1
  have hend : Mirrors (Run.final step start ops) := Run.invariant hkeep start_mirrors hsided
  refine ⟨?_, hend.duplicatesDropped, hend.lateDropped, hend.nodup, ?_⟩
  · exact Run.along_of_invariant hkeep (fun s c hs hc => ⟨hs.highestSeq, (hs.step hc).2⟩)
      start_mirrors hsided
  · intro hnear p
    have hall := Run.invariant (I := fun s : Merging κ => Mirrors s ∧ ∀ a ∈ s.arrivals, a.2 ∈ s.emitted)
      (fun s c hs hc => ⟨hkeep s c hs.1 hc.1, hs.1.complete hc.1 hc.2 hs.2⟩)
      ⟨start_mirrors, nofun⟩ (Run.along_and hsided hnear)
    exact ⟨hend.arrived p, fun ⟨path, hpath⟩ => hall.2 _ hpath⟩

/-- Two paths across the end of the number space; each has lost one packet. -/
def twoPaths : List (Copy Bool) :=
  [⟨true, 65534, [1]⟩, ⟨false, 65534, [1]⟩, ⟨true, 65535, [2]⟩, ⟨true, 1, [4]⟩, ⟨false, 0, [3]⟩,
    ⟨false, 1, [4]⟩]

theorem merges_exactly_twoPaths :
    (Run.final step start twoPaths).emitted = [65534, 65535, 65537, 65536] ∧
      ∀ p, p ∈ (Run.final step start twoPaths).emitted ↔
        ∃ path, (path, p) ∈ (Run.final step start twoPaths).arrivals :=
  ⟨by decide +kernel, (merges_exactly twoPaths (by decide +kernel)).2.2.2.2 (by decide +kernel)⟩

end Merging

/-! ### The debug build -/

namespace BondingMerger

variable {m : BondingMerger} {seq : UInt16} {data : Bytes}

/-- Exactly one of the three counters has gone up, by one. -/
def CountsOne (m m' : BondingMerger) : Prop :=
  (m'.packetsEmitted.toNat = m.packetsEmitted.toNat + 1 ∧
    m'.duplicatesDropped = m.duplicatesDropped ∧ m'.lateDropped = m.lateDropped) ∨
  (m'.packetsEmitted = m.packetsEmitted ∧
    m'.duplicatesDropped.toNat = m.duplicatesDropped.toNat + 1 ∧ m'.lateDropped = m.lateDropped) ∨
  (m'.packetsEmitted = m.packetsEmitted ∧ m'.duplicatesDropped = m.duplicatesDropped ∧
    m'.lateDropped.toNat = m.lateDropped.toNat + 1)

/-- The packet goes through, is counted once, and if it is dropped leaves the window as
it was. -/
structure Completes (m : BondingMerger) (p : UInt16 × Bytes) : Prop where
  checked : m.processChecked p.1 p.2 = some (m.process p.1 p.2)
  counted : CountsOne m (m.process p.1 p.2).1
  frame : (m.process p.1 p.2).2 = none →
    (m.process p.1 p.2).1.bitmap = m.bitmap ∧ (m.process p.1 p.2).1.highestSeq = m.highestSeq

/-- Behind the highest by the window or more. -/
def Late (m : BondingMerger) (seq : UInt16) : Prop :=
  ∃ h, m.highestSeq = some h ∧ asI16 (seq - h) ≤ -1024

/-- The highest, or marked and inside the window. -/
def Seen (m : BondingMerger) (seq : UInt16) : Prop :=
  ∃ h, m.highestSeq = some h ∧ (asI16 (seq - h) = 0 ∨
    -1024 < asI16 (seq - h) ∧ asI16 (seq - h) < 0 ∧ m.isSeqMarked seq = true)

/-- The number is not half the circle away, and the counter of its kind is not full. -/
structure Roomy (m : BondingMerger) (p : UInt16 × Bytes) : Prop where
  aside : ∀ h, m.highestSeq = some h → p.1 ≠ h + 32768
  late : m.Late p.1 → m.lateDropped.toNat + 1 < 2 ^ 64
  seen : m.Seen p.1 → m.duplicatesDropped.toNat + 1 < 2 ^ 64
  fresh : ¬m.Late p.1 → ¬m.Seen p.1 → m.packetsEmitted.toNat + 1 < 2 ^ 64

/-- **One counter goes up.**  A call that raises the counter `c`, and otherwise does
what it should, completes exactly when `c` is not full. -/
theorem completes_iff_of_counter {c : UInt64} {f : UInt64 → BondingMerger} {o : Option Bytes}
    (hprocess : m.process seq data = (f (c + 1), o))
    (hchecked : m.processChecked seq data = Checked.add64 c 1 >>= fun c' => some (f c', o))
    (hcounted : (c + 1).toNat = c.toNat + 1 → CountsOne m (f (c + 1)))
    (hframe : o = none → (f (c + 1)).bitmap = m.bitmap ∧ (f (c + 1)).highestSeq = m.highestSeq) :
    m.Completes (seq, data) ↔ c.toNat + 1 < 2 ^ 64 := by
  constructor
  · intro h
    have hsome := h.checked
    simp only [hchecked] at hsome
    by_contra hfull
    rw [Checked.add64_of_not_lt hfull] at hsome
    cases hsome
  · intro hroom
    have hsum : (c + 1).toNat = c.toNat + 1 := by
      rw [UInt64.toNat_add, UInt64.toNat_one]
      exact Nat.mod_eq_of_lt hroom
    refine ⟨?_, ?_, ?_⟩
    · rw [hprocess, hchecked, Checked.add64_of_lt hroom]
      rfl
    · rw [hprocess]
      exact hcounted hsum
    · rw [hprocess]
      exact hframe

theorem advanceWindow_counters (m : BondingMerger) (advance : UInt16) :
    (m.advanceWindow advance).packetsEmitted = m.packetsEmitted ∧
      (m.advanceWindow advance).duplicatesDropped = m.duplicatesDropped ∧
      (m.advanceWindow advance).lateDropped = m.lateDropped := by
  unfold advanceWindow
  split <;> exact ⟨rfl, rfl, rfl⟩

/-- Half the circle away is the one distance whose negation does not fit. -/
theorem asI16_sub_eq_iff {seq h : UInt16} : asI16 (seq - h) = -32768 ↔ seq = h + 32768 := by
  have hseq := seq.toNat_lt
  have hh := h.toNat_lt
  have hsub := toNat_sub seq h
  have hadd := toNat_add h 32768
  rw [eq_iff_toNat]
  rw [show ((32768 : UInt16).toNat : Int) = 32768 from rfl] at hadd
  unfold asI16
  split <;> omega

theorem not_late_of_none (hm : m.highestSeq = none) : ¬m.Late seq := by
  intro ⟨h, hh, _⟩
  rw [hm] at hh
  cases hh

theorem not_seen_of_none (hm : m.highestSeq = none) : ¬m.Seen seq := by
  intro ⟨h, hh, _⟩
  rw [hm] at hh
  cases hh

/-- The first packet of all. -/
theorem completes_iff_first (hm : m.highestSeq = none) :
    m.Completes (seq, data) ↔ m.Roomy (seq, data) := by
  have hcompletes : m.Completes (seq, data) ↔ m.packetsEmitted.toNat + 1 < 2 ^ 64 := by
    refine completes_iff_of_counter (c := m.packetsEmitted) (o := some data)
      (f := fun c => { ({ m with highestSeq := some seq }).clearBitmap.markSeq seq with
        packetsEmitted := c }) ?_ ?_ ?_ ?_
    · unfold process
      rw [hm]
      rfl
    · unfold processChecked
      rw [hm]
      rfl
    · exact fun hsum => Or.inl ⟨hsum, rfl, rfl⟩
    · intro hc
      cases hc
  rw [hcompletes]
  constructor
  · intro hroom
    refine ⟨fun h hh => ?_, fun hc => absurd hc (not_late_of_none hm),
      fun hc => absurd hc (not_seen_of_none hm), fun _ _ => hroom⟩
    rw [hm] at hh
    cases hh
  · intro hroomy
    exact hroomy.fresh (not_late_of_none hm) (not_seen_of_none hm)

section

variable {h : UInt16} (hm : m.highestSeq = some h)
include hm

theorem late_iff : m.Late seq ↔ asI16 (seq - h) ≤ -1024 := by
  unfold Late
  rw [hm]
  simp

theorem seen_iff : m.Seen seq ↔ asI16 (seq - h) = 0 ∨
    -1024 < asI16 (seq - h) ∧ asI16 (seq - h) < 0 ∧ m.isSeqMarked seq = true := by
  unfold Seen
  rw [hm]
  simp

theorem roomy_iff_fresh (hlate : ¬m.Late seq) (hseen : ¬m.Seen seq) :
    m.Roomy (seq, data) ↔ m.packetsEmitted.toNat + 1 < 2 ^ 64 := by
  constructor
  · intro hroomy
    exact hroomy.fresh hlate hseen
  · intro hroom
    refine ⟨fun h' hh' heq => ?_, fun hc => absurd hc hlate, fun hc => absurd hc hseen,
      fun _ _ => hroom⟩
    obtain rfl := Option.some.inj (hm.symm.trans hh')
    rw [late_iff hm, asI16_sub_eq_iff.mpr heq] at hlate
    omega

theorem roomy_iff_seen (hlate : ¬m.Late seq) (hseen : m.Seen seq) :
    m.Roomy (seq, data) ↔ m.duplicatesDropped.toNat + 1 < 2 ^ 64 := by
  constructor
  · intro hroomy
    exact hroomy.seen hseen
  · intro hroom
    refine ⟨fun h' hh' heq => ?_, fun hc => absurd hc hlate, fun _ => hroom,
      fun _ hc => absurd hseen hc⟩
    obtain rfl := Option.some.inj (hm.symm.trans hh')
    rw [late_iff hm, asI16_sub_eq_iff.mpr heq] at hlate
    omega

theorem roomy_iff_late (hlate : m.Late seq) (hseen : ¬m.Seen seq)
    (hhalf : asI16 (seq - h) ≠ -32768) :
    m.Roomy (seq, data) ↔ m.lateDropped.toNat + 1 < 2 ^ 64 := by
  constructor
  · intro hroomy
    exact hroomy.late hlate
  · intro hroom
    refine ⟨fun h' hh' heq => ?_, fun _ => hroom, fun hc => absurd hc hseen,
      fun hc => absurd hlate hc⟩
    obtain rfl := Option.some.inj (hm.symm.trans hh')
    exact hhalf (asI16_sub_eq_iff.mpr heq)

/-- A packet ahead of the highest. -/
theorem completes_iff_ahead (hpos : 0 < asI16 (seq - h)) :
    m.Completes (seq, data) ↔ m.Roomy (seq, data) := by
  obtain ⟨hemitted, hduplicates, hlate⟩ := advanceWindow_counters m (seq - h)
  rw [roomy_iff_fresh hm (by rw [late_iff hm]; omega) (by rw [seen_iff hm]; omega), ← hemitted]
  refine completes_iff_of_counter (c := (m.advanceWindow (seq - h)).packetsEmitted)
    (o := some data) (f := fun c => { ({ m.advanceWindow (seq - h) with
      highestSeq := some seq }).markSeq seq with packetsEmitted := c }) ?_ ?_ ?_ ?_
  · unfold process
    rw [hm]
    simp only [if_pos hpos]
    rfl
  · unfold processChecked
    rw [hm]
    simp only [if_pos hpos]
    rfl
  · intro hsum
    exact Or.inl ⟨by rw [← hemitted]; exact hsum, hduplicates, hlate⟩
  · intro hc
    cases hc

/-- A copy of the highest. -/
theorem completes_iff_highest (hzero : asI16 (seq - h) = 0) :
    m.Completes (seq, data) ↔ m.Roomy (seq, data) := by
  rw [roomy_iff_seen hm (by rw [late_iff hm]; omega) ((seen_iff hm).mpr (Or.inl hzero))]
  refine completes_iff_of_counter (c := m.duplicatesDropped) (o := none)
    (f := fun c => { m with duplicatesDropped := c }) ?_ ?_ ?_ ?_
  · unfold process
    rw [hm]
    simp only [hzero, if_neg (lt_irrefl (0 : Int)), if_true]
  · unfold processChecked
    rw [hm]
    simp only [hzero, if_neg (lt_irrefl (0 : Int)), if_true]
  · exact fun hsum => Or.inr (Or.inl ⟨rfl, hsum, rfl⟩)
  · exact fun _ => ⟨rfl, rfl⟩

/-- Half the circle away: the negation stops the call. -/
theorem not_completes_half (hhalf : asI16 (seq - h) = -32768) :
    ¬m.Completes (seq, data) := by
  intro hcompletes
  have hsome := hcompletes.checked
  unfold processChecked at hsome
  rw [hm] at hsome
  simp only [hhalf] at hsome
  cases hsome

/-- Behind the highest, both builds make the same two tests. -/
theorem process_behind (data : Bytes) (hneg : asI16 (seq - h) < 0)
    (hhalf : asI16 (seq - h) ≠ -32768) :
    (m.process seq data = if windowSize ≤ (-asI16 (seq - h)).toNat then
        ({ m with lateDropped := m.lateDropped + 1 }, none)
      else if m.isSeqMarked seq then
        ({ m with duplicatesDropped := m.duplicatesDropped + 1 }, none)
      else ({ m.markSeq seq with packetsEmitted := m.packetsEmitted + 1 }, some data)) ∧
    m.processChecked seq data = if windowSize ≤ (-asI16 (seq - h)).toNat then
        Checked.add64 m.lateDropped 1 >>= fun c => some ({ m with lateDropped := c }, none)
      else if m.isSeqMarked seq then
        Checked.add64 m.duplicatesDropped 1 >>= fun c =>
          some ({ m with duplicatesDropped := c }, none)
      else Checked.add64 m.packetsEmitted 1 >>= fun c =>
        some ({ m.markSeq seq with packetsEmitted := c }, some data) := by
  unfold process processChecked
  rw [hm]
  simp only [if_neg (not_lt.mpr hneg.le), if_neg hneg.ne, Checked.neg16_of_ne hhalf]
  exact ⟨rfl, rfl⟩

/-- A packet the window has left behind. -/
theorem completes_iff_late (hlate : asI16 (seq - h) ≤ -1024) (hhalf : asI16 (seq - h) ≠ -32768) :
    m.Completes (seq, data) ↔ m.Roomy (seq, data) := by
  obtain ⟨hprocess, hchecked⟩ := process_behind hm data (by omega) hhalf
  have hwindow : windowSize ≤ (-asI16 (seq - h)).toNat := by
    unfold windowSize
    omega
  rw [if_pos hwindow] at hprocess hchecked
  rw [roomy_iff_late hm ((late_iff hm).mpr hlate) (by rw [seen_iff hm]; omega) hhalf]
  refine completes_iff_of_counter hprocess hchecked ?_ ?_
  · exact fun hsum => Or.inr (Or.inr ⟨rfl, rfl, hsum⟩)
  · exact fun _ => ⟨rfl, rfl⟩

/-- A packet inside the window. -/
theorem completes_iff_inside (hlo : -1024 < asI16 (seq - h)) (hneg : asI16 (seq - h) < 0) :
    m.Completes (seq, data) ↔ m.Roomy (seq, data) := by
  obtain ⟨hprocess, hchecked⟩ := process_behind hm data hneg (by omega)
  have hwindow : ¬windowSize ≤ (-asI16 (seq - h)).toNat := by
    unfold windowSize
    omega
  have hnotLate : ¬m.Late seq := by
    rw [late_iff hm]
    omega
  rw [if_neg hwindow] at hprocess hchecked
  by_cases hmarked : m.isSeqMarked seq = true
  · rw [if_pos hmarked] at hprocess hchecked
    rw [roomy_iff_seen hm hnotLate ((seen_iff hm).mpr (Or.inr ⟨hlo, hneg, hmarked⟩))]
    refine completes_iff_of_counter hprocess hchecked ?_ ?_
    · exact fun hsum => Or.inr (Or.inl ⟨rfl, hsum, rfl⟩)
    · exact fun _ => ⟨rfl, rfl⟩
  · rw [if_neg hmarked] at hprocess hchecked
    have hnotSeen : ¬m.Seen seq := by
      rw [seen_iff hm]
      intro hc
      rcases hc with hzero | ⟨-, -, hc⟩
      · omega
      · exact hmarked hc
    rw [roomy_iff_fresh hm hnotLate hnotSeen]
    refine completes_iff_of_counter hprocess hchecked ?_ ?_
    · exact fun hsum => Or.inl ⟨hsum, rfl, rfl⟩
    · intro hc
      cases hc

end

/-- **A packet completes** exactly when it has room. -/
theorem completes_iff (m : BondingMerger) (p : UInt16 × Bytes) : m.Completes p ↔ m.Roomy p := by
  obtain ⟨seq, data⟩ := p
  cases hm : m.highestSeq with
  | none => exact completes_iff_first hm
  | some h =>
      rcases lt_trichotomy (asI16 (seq - h)) 0 with hneg | hzero | hpos
      · by_cases hhalf : asI16 (seq - h) = -32768
        · refine iff_of_false (not_completes_half hm hhalf) fun hroomy => ?_
          exact hroomy.aside h hm (asI16_sub_eq_iff.mp hhalf)
        · rcases le_or_gt (asI16 (seq - h)) (-1024) with hlate | hlo
          · exact completes_iff_late hm hlate hhalf
          · exact completes_iff_inside hm hlo hneg
      · exact completes_iff_highest hm hzero
      · exact completes_iff_ahead hm hpos

/-- The merger after a packet. -/
def after (m : BondingMerger) (p : UInt16 × Bytes) : BondingMerger := (m.process p.1 p.2).1

/-- **Every packet of a run completes** exactly when none is half the circle away from
the highest number before it, and no counter is full when it should go up. -/
theorem run_completes_iff (packets : List (UInt16 × Bytes)) :
    Run.Along after Completes new packets ↔ Run.Along after Roomy new packets :=
  Run.along_iff_of_invariant (I := fun _ => True) (fun m p _ => m.completes_iff p)
    (fun _ _ _ _ => trivial) trivial

/-- Number 0, then number 32768. -/
theorem half_turn_stops_the_merger :
    ¬Run.Along after Completes new [(0, []), (32768, [])] := by
  intro h
  exact not_completes_half (m := after new (0, [])) rfl (by decide) h.2.1

end BondingMerger

end Rist
