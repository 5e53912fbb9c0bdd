/-
The reorder buffer is an unbounded map of positions, as long as nothing overflows.

The specification never mentions a buffer.  It reads the diary: `firstAt` is the
packet that counts for a position, the first one handed in before the base passed
it, and `exposer` is the packet that first went beyond it.  From these two every
drained item and every reported outcome follows (`PositionMap`).

The invariant `Follows` says the window's cells are what the diary says they are.
No overflow is what makes it an invariant: an overflow throws positions away that
the diary still counts on.
-/
import Rist.Lib.Log
import Rist.Proofs.Reorder.Run

namespace Rist

open Serial

/-- The packet came in at position `p` while the base had not passed it. -/
def Arrival.countsFor (p : Int) (a : Arrival) : Bool := decide (a.pos = p) && decide (a.base ≤ p)

namespace Recording

/-- The packet that counts for position `p`. -/
def firstAt (arrivals : List Arrival) (p : Int) : Option Arrival :=
  arrivals.find? (Arrival.countsFor p)

/-- The packet that first went beyond position `p`. -/
def exposer (arrivals : List Arrival) (p : Int) : Option Arrival :=
  arrivals.find? fun a => decide (p < a.pos)

/-- The item position `p` is drained as. -/
def itemFor (arrivals : List Arrival) (p : Int) : DrainItem :=
  match firstAt arrivals p with
  | some a => .delivered a.data a.seq a.now
  | none => .lost

/-- What `insert` must report for `a`, after the packets `before`. -/
structure Reported (before : List Arrival) (a : Arrival) : Prop where
  stale : a.outcome.stale = true ↔ a.pos < a.base
  duplicate : a.outcome.duplicate = true ↔
    a.base ≤ a.pos ∧ (firstAt before a.pos).isSome = true
  recovered : a.outcome.recovered = true ↔
    a.base ≤ a.pos ∧ firstAt before a.pos = none ∧ (exposer before a.pos).isSome = true
  newGaps : a.outcome.newGaps
    = ((Finset.Ico a.base a.pos).filter fun q => ∀ a' ∈ before, a'.pos < q).card

/-- What `drain_ready` must produce for position `p`, and when. -/
structure Released (hold : Duration) (arrivals : List Arrival) (p : Int) (x : Release) :
    Prop where
  item : x.item = itemFor arrivals p
  /-- No packet is released before its arrival plus the hold time. -/
  delivered : ∀ (data : Bytes) (seq : UInt16) (arrival : Instant),
    x.item = .delivered data seq arrival → arrival + hold ≤ x.time
  /-- No position is given up before the hold time after it was exposed. -/
  lost : x.item = .lost → ∃ a, exposer arrivals p = some a ∧ a.now + hold ≤ x.time

/-- The buffer behaves as an unbounded map of positions. -/
structure PositionMap (hold : Duration) (r : Recording) : Prop where
  /-- The diary's positions are the numbers on the wire, unwrapped. -/
  seqs : ∀ a ∈ r.arrivals, a.seq = UInt16.ofInt a.pos
  baseSeq : ∀ b, r.buf.baseSeq = some b → b = UInt16.ofInt r.base
  /-- One item per position from the first one inserted up to the base. -/
  length : (r.releases.length : Int) = r.base - r.first
  /-- The item of each position, in order. -/
  items : ∀ (k : Nat) (x : Release), r.releases[k]? = some x →
    Released hold r.arrivals (r.first + k) x
  /-- Every insert reports what it did. -/
  outcomes : ∀ before a after, r.arrivals = before ++ a :: after → Reported before a

/-! ### Reading a longer diary -/

theorem firstAt_append (l : List Arrival) (a : Arrival) (p : Int) :
    firstAt (l ++ [a]) p = (firstAt l p).or (if a.countsFor p then some a else none) := by
  unfold firstAt
  rw [List.find?_append]
  congr 1
  by_cases h : a.countsFor p
  · simp [h]
  · simp [h]

theorem exposer_append (l : List Arrival) (a : Arrival) (p : Int) :
    exposer (l ++ [a]) p = (exposer l p).or (if p < a.pos then some a else none) := by
  unfold exposer
  rw [List.find?_append]
  congr 1
  by_cases h : p < a.pos
  · simp [h]
  · simp [h]

theorem firstAt_some {l : List Arrival} {p : Int} {a : Arrival} (h : firstAt l p = some a) :
    a ∈ l ∧ a.pos = p ∧ a.base ≤ p := by
  have h1 := List.mem_of_find?_eq_some h
  have h2 := List.find?_some h
  simp only [Arrival.countsFor, Bool.and_eq_true, decide_eq_true_eq] at h2
  exact ⟨h1, h2.1, h2.2⟩

theorem exposer_some {l : List Arrival} {p : Int} {a : Arrival} (h : exposer l p = some a) :
    a ∈ l ∧ p < a.pos := by
  have h1 := List.mem_of_find?_eq_some h
  have h2 := List.find?_some h
  simp only [decide_eq_true_eq] at h2
  exact ⟨h1, h2⟩

theorem firstAt_none_of_lt {l : List Arrival} {p : Int} (h : ∀ a ∈ l, a.pos < p) :
    firstAt l p = none := by
  cases hf : firstAt l p with
  | none => rfl
  | some a =>
      obtain ⟨h1, h2, -⟩ := firstAt_some hf
      have := h a h1
      omega

theorem exposer_none_of_le {l : List Arrival} {p : Int} (h : ∀ a ∈ l, a.pos ≤ p) :
    exposer l p = none := by
  cases hf : exposer l p with
  | none => rfl
  | some a =>
      obtain ⟨h1, h2⟩ := exposer_some hf
      have := h a h1
      omega

/-- A packet elsewhere, or one the base had passed, changes nothing for `p`. -/
theorem firstAt_append_of_not {l : List Arrival} {a : Arrival} {p : Int}
    (h : ¬(a.pos = p ∧ a.base ≤ p)) : firstAt (l ++ [a]) p = firstAt l p := by
  rw [firstAt_append, if_neg (by simpa [Arrival.countsFor] using h), Option.or_none]

/-! ### The invariant -/

/-- The cell the diary asks for at a position inside the window. -/
def cellFor (arrivals : List Arrival) (p : Int) : Cell :=
  match firstAt arrivals p with
  | some a => .filled a.data a.now
  | none =>
    match exposer arrivals p with
    | some a => .gap a.now
    | none => .empty

/-- The window is what the diary says it is. -/
structure Follows (hold : Duration) (r : Recording) (w : Window) : Prop where
  tracks : Tracks r w
  hold_eq : r.buf.bufferTime = hold
  first_le : r.first ≤ w.base
  cells : ∀ p, w.base ≤ p → p ≤ w.high → w.cell p = cellFor r.arrivals p
  top : ∀ a ∈ r.arrivals, a.pos ≤ w.high
  top_mem : ∃ a ∈ r.arrivals, a.pos = w.high
  past : ∀ a ∈ r.arrivals, a.now ≤ r.clock
  map : PositionMap hold r

/-- A packet that is not the first one at a position the window covers leaves that
position's cell alone. -/
theorem cellFor_append {l : List Arrival} {a : Arrival} {p : Int}
    (hne : cellFor l p ≠ .empty) (h : ¬(a.pos = p ∧ a.base ≤ p) ∨ (firstAt l p).isSome = true) :
    cellFor (l ++ [a]) p = cellFor l p := by
  cases hf : firstAt l p with
  | some x =>
      have hf' : firstAt (l ++ [a]) p = some x := by
        rw [firstAt_append, hf]
        rfl
      simp only [cellFor, hf, hf']
  | none =>
      have hf' : firstAt (l ++ [a]) p = none := by
        rw [hf] at h
        rw [firstAt_append_of_not (by simpa using h), hf]
      cases he : exposer l p with
      | none =>
          exfalso
          apply hne
          simp only [cellFor, hf, he]
      | some x =>
          have he' : exposer (l ++ [a]) p = some x := by
            rw [exposer_append, he]
            rfl
          simp only [cellFor, hf, hf', he, he']

/-- The first packet at a position the base has not passed is the one its cell holds. -/
theorem cellFor_append_pos {l : List Arrival} {a : Arrival} (hf : firstAt l a.pos = none)
    (hb : a.base ≤ a.pos) : cellFor (l ++ [a]) a.pos = .filled a.data a.now := by
  have hnew : firstAt (l ++ [a]) a.pos = some a := by
    rw [firstAt_append, hf, if_pos (by simp [Arrival.countsFor, hb])]
    rfl
  simp only [cellFor, hnew]

/-- A packet beyond a position nothing has reached leaves a gap there. -/
theorem cellFor_append_gap {l : List Arrival} {a : Arrival} {p : Int}
    (hl : ∀ x ∈ l, x.pos < p) (hp : p < a.pos) : cellFor (l ++ [a]) p = .gap a.now := by
  have hnone : firstAt (l ++ [a]) p = none := by
    rw [firstAt_append_of_not (by omega), firstAt_none_of_lt hl]
  have hexp : exposer (l ++ [a]) p = some a := by
    rw [exposer_append, exposer_none_of_le fun x hx => (hl x hx).le, if_pos hp]
    rfl
  simp only [cellFor, hnone, hexp]

/-- The part of `PositionMap` about what has already been drained survives a packet
that cannot count for a drained position. -/
theorem PositionMap.append {hold : Duration} {r r' : Recording} {a : Arrival}
    (h : PositionMap hold r) (hfirst : r'.first = r.first)
    (hrel : r'.releases = r.releases) (harr : r'.arrivals = r.arrivals ++ [a])
    (hbase : r'.releases.length = r'.base - r'.first)
    (hbaseSeq : ∀ b, r'.buf.baseSeq = some b → b = UInt16.ofInt r'.base)
    (hseq : a.seq = UInt16.ofInt a.pos) (hpast : r.base ≤ a.base)
    (hrep : Reported r.arrivals a) : PositionMap hold r' := by
  have hlen := h.length
  refine ⟨?_, hbaseSeq, hbase, ?_, ?_⟩
  · intro x hx
    rw [harr] at hx
    rcases List.mem_append.mp hx with hx | hx
    · exact h.seqs x hx
    · rw [List.mem_singleton.mp hx]
      exact hseq
  · intro k x hk
    rw [hrel] at hk
    obtain ⟨hitem, hdel, hlost⟩ := h.items k x hk
    have hlt : k < r.releases.length := (List.getElem?_eq_some_iff.mp hk).1
    rw [hfirst, harr]
    refine ⟨?_, hdel, ?_⟩
    · rw [hitem]
      unfold itemFor
      rw [firstAt_append_of_not (by omega)]
    · intro hx
      obtain ⟨e, he, ht⟩ := hlost hx
      refine ⟨e, ?_, ht⟩
      rw [exposer_append, he]
      rfl
  · intro before x after heq
    rw [harr] at heq
    rcases Log.concat_eq_split.mp heq with ⟨-, rfl, rfl⟩ | ⟨after', -, heq'⟩
    · exact hrep
    · exact h.outcomes before x after' heq'

/-! ### Inserting -/

variable {hold : Duration} {r : Recording} {w : Window}

/-- The window of a run without overflow, by where the packet falls. -/
theorem Follows.insert_cases (h : Follows hold r w) {p : Int}
    (hfit : p < w.base + r.buf.capacity) (data : Bytes) (now : Instant) :
    (p < w.base ∧ w.insert r.buf.capacity p data now = (w, { stale := true })) ∨
    (w.base ≤ p ∧ p ≤ w.high ∧ (firstAt r.arrivals p).isSome = true ∧
      w.insert r.buf.capacity p data now = (w, { duplicate := true })) ∨
    (w.base ≤ p ∧ p ≤ w.high ∧ firstAt r.arrivals p = none ∧
      (exposer r.arrivals p).isSome = true ∧
      w.insert r.buf.capacity p data now = (w.fill p data now, { recovered := true })) ∨
    (w.base ≤ p ∧ w.high < p ∧
      w.insert r.buf.capacity p data now
        = (w.reach p data now, { newGaps := (p - w.high - 1).toNat })) := by
  unfold Window.insert Window.place
  by_cases hstale : p < w.base
  · rw [if_pos hstale]
    exact Or.inl ⟨hstale, rfl⟩
  · rw [if_neg hstale, if_pos hfit]
    by_cases hp : p ≤ w.high
    · rw [if_pos hp]
      have hcell := h.cells p (by omega) hp
      cases hf : firstAt r.arrivals p with
      | some a =>
          have hfill : w.cell p = .filled a.data a.now := by
            rw [hcell]
            simp only [cellFor, hf]
          rw [hfill]
          exact Or.inr (Or.inl ⟨by omega, hp, rfl, rfl⟩)
      | none =>
          cases he : exposer r.arrivals p with
          | none =>
              exfalso
              apply h.tracks.refines.wf.inside p (by omega) hp
              rw [hcell]
              simp only [cellFor, hf, he]
          | some a =>
              have hgap : w.cell p = .gap a.now := by
                rw [hcell]
                simp only [cellFor, hf, he]
              rw [hgap]
              exact Or.inr (Or.inr (Or.inl ⟨by omega, hp, rfl, rfl, rfl⟩))
    · rw [if_neg hp]
      refine Or.inr (Or.inr (Or.inr ⟨by omega, by omega, ?_⟩))
      simp

/-- **Every insert reports what it did.** -/
theorem Follows.reported (h : Follows hold r w) {p : Int}
    (hfit : p < w.base + r.buf.capacity) (seq : UInt16) (data : Bytes) (now : Instant) :
    Reported r.arrivals
      ⟨p, w.base, seq, data, now, (w.insert r.buf.capacity p data now).2⟩ := by
  obtain ⟨top, htop, hpos⟩ := h.top_mem
  -- below the highest position nothing is newly exposed
  have hold_gaps : p ≤ w.high →
      ((Finset.Ico w.base p).filter fun q => ∀ a' ∈ r.arrivals, a'.pos < q).card = 0 := by
    intro hp
    rw [Finset.card_eq_zero, Finset.filter_eq_empty_iff]
    intro q hq hall
    have h1 := hall top htop
    have h2 := (Finset.mem_Ico.mp hq).2
    omega
  have hlo := h.tracks.refines.wf.base_le
  rcases h.insert_cases hfit data now with ⟨h1, ho⟩ | ⟨h1, h2, h3, ho⟩ | ⟨h1, h2, h3, h4, ho⟩ |
    ⟨h1, h2, ho⟩
  · rw [ho]
    refine ⟨by simpa using h1, ?_, ?_, (hold_gaps (by omega)).symm⟩
    · simp only [Bool.false_eq_true, false_iff, not_and]
      intro hc
      omega
    · simp only [Bool.false_eq_true, false_iff, not_and]
      intro hc
      omega
  · rw [ho]
    refine ⟨by simpa using h1, by simpa using ⟨h1, h3⟩, ?_, (hold_gaps h2).symm⟩
    simp only [Bool.false_eq_true, false_iff, not_and]
    intro _ hnone
    rw [hnone] at h3
    simp at h3
  · rw [ho]
    refine ⟨by simpa using h1, ?_, by simpa using ⟨h1, h3, h4⟩, (hold_gaps h2).symm⟩
    simp [h3]
  · rw [ho]
    have hnone : firstAt r.arrivals p = none :=
      firstAt_none_of_lt fun a ha => lt_of_le_of_lt (h.top a ha) h2
    have hexp : exposer r.arrivals p = none :=
      exposer_none_of_le fun a ha => (h.top a ha).trans h2.le
    refine ⟨by simpa using h1, by simp [hnone], by simp [hexp], ?_⟩
    show (p - w.high - 1).toNat = _
    have hset : (Finset.Ico w.base p).filter (fun q => ∀ a' ∈ r.arrivals, a'.pos < q)
        = Finset.Ico (w.high + 1) p := by
      ext q
      simp only [Finset.mem_filter, Finset.mem_Ico]
      constructor
      · rintro ⟨hq, hall⟩
        have := hall top htop
        omega
      · intro hq
        refine ⟨by omega, fun a' ha' => ?_⟩
        have := h.top a' ha'
        omega
    rw [hset, Int.card_Ico]
    congr 1
    omega

/-- A packet that is not the first one at a covered position leaves its cell alone. -/
theorem Follows.cell_kept (h : Follows hold r w) {a : Arrival} {q : Int} (hlo : w.base ≤ q)
    (hhi : q ≤ w.high) (hq : a.pos ≠ q ∨ (firstAt r.arrivals q).isSome = true) :
    w.cell q = cellFor (r.arrivals ++ [a]) q := by
  rw [cellFor_append, h.cells q hlo hhi]
  · rw [← h.cells q hlo hhi]
    exact h.tracks.refines.wf.inside q hlo hhi
  · rcases hq with hne | hsome
    · exact Or.inl fun hc => hne hc.1
    · exact Or.inr hsome

/-- The cells of the window after a packet are what the longer diary says they are. -/
theorem Follows.cells_insert (h : Follows hold r w) {a : Arrival} (hbase : a.base = w.base)
    (hfit : a.pos < w.base + r.buf.capacity) {q : Int} (hlo : w.base ≤ q)
    (hhi : q ≤ (w.insert r.buf.capacity a.pos a.data a.now).1.high) :
    (w.insert r.buf.capacity a.pos a.data a.now).1.cell q = cellFor (r.arrivals ++ [a]) q := by
  rcases h.insert_cases hfit a.data a.now with ⟨h1, ho⟩ | ⟨h1, h2, h3, ho⟩ |
    ⟨h1, h2, h3, h4, ho⟩ | ⟨h1, h2, ho⟩
  · rw [ho] at hhi ⊢
    exact h.cell_kept hlo hhi (Or.inl (by omega))
  · rw [ho] at hhi ⊢
    by_cases hqp : a.pos = q
    · exact h.cell_kept hlo hhi (Or.inr (by rw [← hqp]; exact h3))
    · exact h.cell_kept hlo hhi (Or.inl hqp)
  · rw [ho] at hhi ⊢
    simp only [Window.fill] at hhi ⊢
    by_cases hqp : q = a.pos
    · rw [hqp, Function.update_self, cellFor_append_pos h3 (by omega)]
    · rw [Function.update_of_ne hqp]
      exact h.cell_kept hlo hhi (Or.inl (Ne.symm hqp))
  · rw [ho] at hhi ⊢
    simp only [Window.reach] at hhi ⊢
    have hbelow : ∀ q, w.high < q → ∀ x ∈ r.arrivals, x.pos < q :=
      fun q hq x hx => lt_of_le_of_lt (h.top x hx) hq
    by_cases hqp : q = a.pos
    · rw [if_pos hqp, hqp,
        cellFor_append_pos (firstAt_none_of_lt (hbelow a.pos h2)) (by omega)]
    · rw [if_neg hqp]
      by_cases hgap : w.high < q ∧ q < a.pos
      · rw [if_pos hgap, cellFor_append_gap (hbelow q hgap.1) hgap.2]
      · rw [if_neg hgap]
        exact h.cell_kept hlo (by omega) (Or.inl (Ne.symm hqp))

theorem Follows.insert (h : Follows hold r w) (seq : UInt16) (data : Bytes) {now : Instant}
    (hclock : r.clock ≤ now) (hfit : near w.base seq < w.base + r.buf.capacity) :
    Follows hold (r.step (.insert seq data now))
      (w.insert r.buf.capacity (near w.base seq) data now).1 := by
  obtain ⟨htr, hfirst, harr, hrel⟩ := h.tracks.insert seq data now
  have hrep := h.reported hfit seq data now
  have hseq := ofInt_near w.base seq
  set p := near w.base seq with hp
  set a : Arrival := ⟨p, w.base, seq, data, now, (w.insert r.buf.capacity p data now).2⟩ with ha
  have hlo := h.tracks.refines.wf.base_le
  have hbaseEq : (w.insert r.buf.capacity p data now).1.base = w.base := by
    unfold Window.insert
    split
    · rfl
    · exact Window.place_base p data now {}
  have hbufTime : (r.step (.insert seq data now)).buf.bufferTime = hold := by
    have hshape := (ReorderBuffer.insert_shape (b := r.buf) seq data now).2
    simp only [step, h.tracks.refines.base]
    rw [hshape, h.hold_eq]
  have hclock' : (r.step (.insert seq data now)).clock = now := by
    simp only [step, h.tracks.refines.base]
  have hpast : ∀ x ∈ (r.step (.insert seq data now)).arrivals,
      x.now ≤ (r.step (.insert seq data now)).clock := by
    intro x hx
    rw [hclock']
    rw [harr] at hx
    rcases List.mem_append.mp hx with hx | hx
    · exact (h.past x hx).trans hclock
    · rw [List.mem_singleton.mp hx]
  have hmap : PositionMap hold (r.step (.insert seq data now)) := by
    refine h.map.append hfirst hrel harr ?_ ?_ hseq.symm ?_ hrep
    · rw [hrel, hfirst, htr.base, hbaseEq, ← h.tracks.base]
      exact h.map.length
    · intro b hb
      rw [htr.refines.base] at hb
      rw [htr.base]
      exact (Option.some.inj hb).symm
    · rw [h.tracks.base]
  have htopOld : ∀ x ∈ r.arrivals ++ [a], x.pos ≤ max w.high p := by
    intro x hx
    rcases List.mem_append.mp hx with hx | hx
    · exact (h.top x hx).trans (le_max_left _ _)
    · rw [List.mem_singleton.mp hx]
      exact le_max_right _ _
  obtain ⟨top, htop, hpos⟩ := h.top_mem
  refine ⟨htr, hbufTime, by rw [hfirst, hbaseEq]; exact h.first_le, ?_, ?_, ?_, hpast, hmap⟩
  · intro q hq1 hq2
    rw [hbaseEq] at hq1
    rw [harr]
    exact h.cells_insert (a := a) rfl hfit hq1 hq2
  · intro x hx
    rw [harr] at hx
    have := htopOld x hx
    rcases h.insert_cases hfit data now with ⟨h1, ho⟩ | ⟨h1, h2, h3, ho⟩ |
      ⟨h1, h2, h3, h4, ho⟩ | ⟨h1, h2, ho⟩
    · rw [ho]; simp only; omega
    · rw [ho]; simp only; omega
    · rw [ho]; simp only [Window.fill]; omega
    · rw [ho]; simp only [Window.reach]; omega
  · rw [harr]
    rcases h.insert_cases hfit data now with ⟨h1, ho⟩ | ⟨h1, h2, h3, ho⟩ |
      ⟨h1, h2, h3, h4, ho⟩ | ⟨h1, h2, ho⟩
    · exact ⟨top, by simp [htop], by rw [ho]; exact hpos⟩
    · exact ⟨top, by simp [htop], by rw [ho]; exact hpos⟩
    · exact ⟨top, by simp [htop], by rw [ho]; exact hpos⟩
    · exact ⟨a, by simp, by rw [ho]; rfl⟩

/-! ### Draining -/

/-- A turn of the drain loop releases what the diary asks for at the head. -/
theorem released_of_turn {arrivals : List Arrival} {now : Instant} {w' : Window}
    {item : DrainItem} (hcell : w.cell w.base = cellFor arrivals w.base)
    (hseqs : ∀ a ∈ arrivals, a.seq = UInt16.ofInt a.pos) (hpast : ∀ a ∈ arrivals, a.now ≤ now)
    (hs : w.drainStep hold now = some (w', item)) :
    Released hold arrivals w.base ⟨item, now⟩ := by
  unfold Window.drainStep at hs
  split at hs
  · simp at hs
  · cases hf : firstAt arrivals w.base with
    | some a =>
        obtain ⟨hmem, hpos, -⟩ := firstAt_some hf
        have hle := hpast a hmem
        have hfill : w.cell w.base = .filled a.data a.now := by
          rw [hcell]
          simp only [cellFor, hf]
        simp only [hfill] at hs
        split at hs
        · rename_i hdue
          simp only [Option.some.injEq, Prod.mk.injEq] at hs
          obtain ⟨-, rfl⟩ := hs
          refine ⟨?_, ?_, by simp⟩
          · simp only [itemFor, hf]
            rw [hseqs a hmem, hpos]
          · intro data seq arrival hx
            obtain ⟨-, -, rfl⟩ := DrainItem.delivered.inj hx
            exact Nat.add_le_of_le_sub' hle hdue
        · simp at hs
    | none =>
        cases he : exposer arrivals w.base with
        | none =>
            have hempty : w.cell w.base = .empty := by
              rw [hcell]
              simp only [cellFor, hf, he]
            simp only [hempty] at hs
            simp at hs
        | some a =>
            have hle := hpast a (exposer_some he).1
            have hgap : w.cell w.base = .gap a.now := by
              rw [hcell]
              simp only [cellFor, hf, he]
            simp only [hgap] at hs
            split at hs
            · rename_i hdue
              simp only [Option.some.injEq, Prod.mk.injEq] at hs
              obtain ⟨-, rfl⟩ := hs
              refine ⟨by simp only [itemFor, hf], by simp, fun _ => ⟨a, he, ?_⟩⟩
              exact Nat.add_le_of_le_sub' hle hdue
            · simp at hs

/-- A whole drain releases the positions from the head on, one by one. -/
theorem Follows.drainLoop (h : Follows hold r w) {now : Instant} (hclock : r.clock ≤ now)
    (fuel : Nat) :
    (∀ p, (w.drainLoop hold now fuel).1.base ≤ p → p ≤ w.high →
      (w.drainLoop hold now fuel).1.cell p = cellFor r.arrivals p) ∧
    ∀ (k : Nat) (item : DrainItem), (w.drainLoop hold now fuel).2[k]? = some item →
      Released hold r.arrivals (w.base + k) ⟨item, now⟩ := by
  have hwf := h.tracks.refines.wf
  have hloop := Window.drainLoop_invariant hold now
    (I := fun w' out => w'.base = w.base + out.length ∧ w'.high = w.high ∧
      Window.WF r.buf.capacity w' ∧
      (∀ p, w'.base ≤ p → p ≤ w.high → w'.cell p = cellFor r.arrivals p) ∧
      ∀ (k : Nat) (item : DrainItem), out[k]? = some item →
        Released hold r.arrivals (w.base + k) ⟨item, now⟩)
    (by
      intro w₁ out w₂ item ⟨hb, hh, hwf₁, hcells, hout⟩ hs
      obtain ⟨hw₂, hle, hwf₂⟩ := Window.drainStep_wf hwf₁ hs
      have hrel : Released hold r.arrivals w₁.base ⟨item, now⟩ :=
        released_of_turn (hcells w₁.base le_rfl (by omega)) h.map.seqs
          (fun a ha => (h.past a ha).trans hclock) hs
      refine ⟨?_, by rw [hw₂]; exact hh, hwf₂, ?_, ?_⟩
      · rw [hw₂]
        simp only [Window.slide, List.length_append, List.length_singleton]
        omega
      · intro p hp1 hp2
        rw [hw₂] at hp1 ⊢
        simp only [Window.slide] at hp1 ⊢
        rw [if_neg (by omega)]
        exact hcells p (by omega) hp2
      · intro k x hk
        rcases lt_or_ge k out.length with hlt | hge
        · rw [List.getElem?_append_left hlt] at hk
          exact hout k x hk
        · -- the item just released
          have hkeq : k = out.length := by
            have := (List.getElem?_eq_some_iff.mp hk).1
            simp only [List.length_append, List.length_singleton] at this
            omega
          subst hkeq
          simp only [List.getElem?_concat_length, Option.some.injEq] at hk
          subst hk
          rw [← hb]
          exact hrel)
    fuel w [] ⟨by simp, rfl, hwf, h.cells, by simp⟩
  obtain ⟨-, -, -, hcells, hout⟩ := hloop
  exact ⟨hcells, by simpa using hout⟩

theorem Follows.drain (h : Follows hold r w) {now : Instant} (hclock : r.clock ≤ now) :
    ∃ w', Follows hold (r.step (.drain now)) w' := by
  obtain ⟨fuel, htr, hfirst, harr, hrel⟩ := h.tracks.drain now
  rw [h.hold_eq] at htr hrel
  obtain ⟨hbase, hhigh, -⟩ := Window.drainLoop_base hold now
    h.tracks.refines.wf fuel
  obtain ⟨hcells, hout⟩ := h.drainLoop hclock fuel
  have hlen := h.map.length
  rw [h.tracks.base] at hlen
  have hnow : (r.step (.drain now)).clock = now := rfl
  have htime : (r.step (.drain now)).buf.bufferTime = hold := by
    rw [← h.hold_eq]
    exact (ReorderBuffer.drainLoop_refines now r.buf.drainFuel h.tracks.refines).2.2.2
  refine ⟨_, htr, htime, ?_, ?_, ?_, ?_, ?_, ?_⟩
  · rw [hfirst, hbase]
    have := h.first_le
    omega
  · intro p hp1 hp2
    rw [harr]
    exact hcells p hp1 (by rw [← hhigh]; exact hp2)
  · intro a ha
    rw [harr] at ha
    rw [hhigh]
    exact h.top a ha
  · rw [harr, hhigh]
    exact h.top_mem
  · intro a ha
    rw [harr] at ha
    rw [hnow]
    exact (h.past a ha).trans hclock
  · refine ⟨by rw [harr]; exact h.map.seqs, ?_, ?_, ?_, by rw [harr]; exact h.map.outcomes⟩
    · intro b hb
      rw [htr.refines.base] at hb
      rw [htr.base]
      exact (Option.some.inj hb).symm
    · rw [hrel, htr.base, hbase, hfirst]
      simp only [List.length_append, List.length_map]
      omega
    · intro k x hk
      rw [hrel] at hk
      rw [harr, hfirst]
      rcases lt_or_ge k r.releases.length with hlt | hge
      · rw [List.getElem?_append_left hlt] at hk
        exact h.map.items k x hk
      · rw [List.getElem?_append_right hge, List.getElem?_map, Option.map_eq_some_iff] at hk
        obtain ⟨item, hitem, rfl⟩ := hk
        have hpos : r.first + (k : Int) = w.base + ((k - r.releases.length : Nat) : Int) := by
          omega
        rw [hpos]
        exact hout _ item hitem

/-! ### The run -/

theorem Fresh.follows (h : Fresh r) (htime : r.buf.bufferTime = hold) (seq : UInt16)
    (data : Bytes) (now : Instant) :
    Follows hold (r.step (.insert seq data now)) (Window.anchor seq.toNat data now) := by
  obtain ⟨htr, -, htime', hfirst, harr, hrel⟩ := h.insert seq data now
  have hnow : (r.step (.insert seq data now)).clock = now := by
    simp only [step, h.baseSeq]
  set a : Arrival := ⟨seq.toNat, seq.toNat, seq, data, now, {}⟩ with ha
  have hmem : ∀ x ∈ (r.step (.insert seq data now)).arrivals, x = a := by
    intro x hx
    rw [harr] at hx
    exact List.mem_singleton.mp hx
  refine ⟨htr, by rw [htime', htime], by rw [hfirst]; exact le_rfl, ?_, ?_, ?_, ?_, ?_⟩
  · intro p hp1 hp2
    have hp : p = seq.toNat := le_antisymm hp2 hp1
    subst hp
    have hf : firstAt [a] (seq.toNat : Int) = some a := by
      simp [firstAt, Arrival.countsFor, ha]
    rw [harr]
    simp only [cellFor, hf, Window.anchor, if_true]
    rfl
  · intro x hx
    rw [hmem x hx]
    exact le_rfl
  · exact ⟨a, by rw [harr]; simp, rfl⟩
  · intro x hx
    rw [hmem x hx, hnow]
  · refine ⟨?_, ?_, ?_, ?_, ?_⟩
    · intro x hx
      rw [hmem x hx]
      exact (ofInt_toNat seq).symm
    · intro b hb
      rw [htr.refines.base] at hb
      rw [htr.base]
      exact (Option.some.inj hb).symm
    · rw [hrel, htr.base, hfirst]
      simp [Window.anchor]
    · rw [hrel]
      simp
    · intro before x after heq
      rw [harr] at heq
      obtain ⟨rfl, rfl⟩ : before = [] ∧ x = a := by
        cases before with
        | nil => exact ⟨rfl, (List.cons.inj heq).1.symm⟩
        | cons y before => simp at heq
      refine ⟨by simp [ha], by simp [firstAt], by simp [exposer], ?_⟩
      simp [ha]

/-- Before the first packet the buffer is empty; after it the window follows the
diary. -/
def Settled (hold : Duration) (r : Recording) : Prop :=
  (Fresh r ∧ r.buf.bufferTime = hold) ∨ ∃ w, Follows hold r w

theorem Settled.step (h : Settled hold r) {op : BufferOp} (hclock : r.clock ≤ op.now)
    (hfit : ¬r.Overflows op) : Settled hold (r.step op) := by
  rcases h with ⟨hfresh, htime⟩ | ⟨w, h⟩
  · cases op with
    | insert seq data now => exact Or.inr ⟨_, hfresh.follows htime seq data now⟩
    | drain now =>
        rw [hfresh.drain]
        exact Or.inl ⟨⟨hfresh.bits, hfresh.baseSeq, hfresh.empty, hfresh.arrivals,
          hfresh.releases, hfresh.base⟩, htime⟩
  · cases op with
    | insert seq data now =>
        refine Or.inr ⟨_, h.insert seq data hclock ?_⟩
        by_contra hc
        apply hfit
        refine ⟨_, h.tracks.refines.base, ?_⟩
        unfold near at hc
        omega
    | drain now => exact Or.inr (h.drain hclock)

theorem Settled.positionMap (h : Settled hold r) : PositionMap hold r := by
  rcases h with ⟨hfresh, -⟩ | ⟨w, h⟩
  · refine ⟨?_, ?_, ?_, ?_, ?_⟩
    · rw [hfresh.arrivals]
      simp
    · rw [hfresh.baseSeq]
      simp
    · rw [hfresh.releases, hfresh.base]
      simp
    · rw [hfresh.releases]
      simp
    · rw [hfresh.arrivals]
      simp
  · exact h.map

/-- **The flat ring is an unbounded map of positions**, on every run in which time
does not go back and no insert overflows. -/
theorem of_positionMap (hold : Duration) {capacity : Nat} (hcap : capacity ≤ 16384)
    {ops : List BufferOp}
    (hclock : Run.Along step (fun r op => r.clock ≤ op.now)
      (start (ReorderBuffer.withCapacity hold capacity)) ops)
    (hfit : Run.Along step (fun r op => ¬r.Overflows op)
      (start (ReorderBuffer.withCapacity hold capacity)) ops) :
    PositionMap hold (of hold capacity ops) := by
  have hstart : Settled hold (start (ReorderBuffer.withCapacity hold capacity)) :=
    Or.inl ⟨start_fresh hold hcap, rfl⟩
  have hend : Settled hold (of hold capacity ops) :=
    Run.invariant (I := Settled hold) (fun r op hs hp => hs.step hp.1 hp.2) hstart
      (Run.along_and hclock hfit)
  exact hend.positionMap

/-- Across the wrap, with the packet of number 0 coming in after the one of number 1. -/
theorem of_positionMap_wrap :
    PositionMap 5 (of 5 64
      [.insert 65535 [1] 0, .insert 1 [3] 1, .insert 0 [2] 2, .drain 10]) ∧
    (of 5 64 [.insert 65535 [1] 0, .insert 1 [3] 1, .insert 0 [2] 2, .drain 10]).releases.length
      = 3 :=
  ⟨of_positionMap 5 (by decide) (by decide +kernel) (by decide +kernel), by decide +kernel⟩

end Recording

end Rist
