/-
Runs of the reorder buffer, written down.

A run is a list of calls.  `Recording` plays it on the real buffer and keeps a
diary beside it: every packet handed in, with the position its number stood for
and the position of the base at that moment, and every item drained, with the
time.  Positions are unwrapped from the numbers alone.  A packet's position is the
base's plus the signed wrapped difference the code computes, and the base moves by
the forward distance from its old number to its new one.

`Tracks` says the diary's base is the base of the window the buffer stands for,
and the step lemmas say what each call does to window and diary.  Every result
about runs is an invariant on top of these.
-/
import Rist.Proofs.Reorder.Drain
import Rist.Lib.Run

namespace Rist

open Serial

/-- A call on the reorder buffer. -/
inductive BufferOp where
  | insert (seq : UInt16) (data : Bytes) (now : Instant)
  | drain (now : Instant)

/-- The clock reading a call is made with. -/
def BufferOp.now : BufferOp → Instant
  | insert _ _ now => now
  | drain now => now

/-- A packet handed to `insert`, and what came of it. -/
structure Arrival where
  /-- The position the number stands for. -/
  pos : Int
  /-- The position of the base when the packet came in. -/
  base : Int
  seq : UInt16
  data : Bytes
  now : Instant
  outcome : InsertOutcome

/-- An item `drain_ready` produced, and when. -/
structure Release where
  item : DrainItem
  time : Instant

/-- A buffer and the diary of the calls made on it. -/
structure Recording where
  buf : ReorderBuffer
  /-- The first position inserted. -/
  first : Int
  /-- The position of `base_seq`. -/
  base : Int
  arrivals : List Arrival
  releases : List Release
  /-- The time of the last call. -/
  clock : Instant

namespace Recording

def start (b : ReorderBuffer) : Recording := ⟨b, 0, 0, [], [], 0⟩

/-- How far the base number moved, counted forward. -/
def advance (old new : Option UInt16) : Int :=
  match old, new with
  | some b, some b' => ((b' - b).toNat : Int)
  | _, _ => 0

def step (r : Recording) : BufferOp → Recording
  | .insert seq data now =>
    let (buf, outcome) := r.buf.insert seq data now
    match r.buf.baseSeq with
    | none =>
      { buf, first := seq.toNat, base := seq.toNat, releases := r.releases, clock := now,
        arrivals := r.arrivals ++ [⟨seq.toNat, seq.toNat, seq, data, now, outcome⟩] }
    | some b =>
      { buf, first := r.first, base := r.base + advance r.buf.baseSeq buf.baseSeq,
        releases := r.releases, clock := now,
        arrivals := r.arrivals ++
          [⟨r.base + asI16 (seq - b), r.base, seq, data, now, outcome⟩] }
  | .drain now =>
    let (buf, items) := r.buf.drainReady now
    { r with buf, base := r.base + advance r.buf.baseSeq buf.baseSeq, clock := now,
             releases := r.releases ++ items.map fun item => ⟨item, now⟩ }

/-- The recording of a run on a new buffer. -/
def of (hold : Duration) (capacity : Nat) (ops : List BufferOp) : Recording :=
  Run.final step (start (ReorderBuffer.withCapacity hold capacity)) ops

/-- Does the call take the overflow branch? -/
def Overflows (r : Recording) : BufferOp → Prop
  | .insert seq _ _ =>
    ∃ b, r.buf.baseSeq = some b ∧ (r.buf.capacity : Int) - 1 < asI16 (seq - b)
  | .drain _ => False

instance (r : Recording) (op : BufferOp) : Decidable (r.Overflows op) :=
  match op with
  | .insert seq _ _ =>
    match h : r.buf.baseSeq with
    | none => .isFalse fun ⟨_, hb, _⟩ => nomatch h.symm.trans hb
    | some b => decidable_of_iff ((r.buf.capacity : Int) - 1 < asI16 (seq - b))
        ⟨fun hlt => ⟨b, h, hlt⟩, fun ⟨_, hb, hlt⟩ => Option.some.inj (h.symm.trans hb) ▸ hlt⟩
  | .drain _ => .isFalse id

end Recording

/-! ### Facts about the window a run needs -/

namespace Window

variable {cap : Int} {w : Window}

theorem place_base (p : Int) (data : Bytes) (now : Instant) (o : InsertOutcome) :
    (w.place p data now o).1.base = w.base := by
  unfold place
  split
  · split <;> rfl
  · rfl

/-- The base only moves forward, and never past the packet that moves it. -/
theorem insert_base (h : WF cap w) (p : Int) (data : Bytes) (now : Instant) :
    w.base ≤ (w.insert cap p data now).1.base ∧
    ((w.insert cap p data now).1.base = w.base ∨ (w.insert cap p data now).1.base ≤ p) := by
  have hlo := h.base_le
  have hhi := h.high_lt
  unfold insert
  split_ifs with h1 h2 h3 h4
  · exact ⟨le_rfl, Or.inl rfl⟩
  · rw [place_base]
    exact ⟨le_rfl, Or.inl rfl⟩
  · exact ⟨by simp only [anchor]; omega, Or.inr (by simp [anchor])⟩
  · rw [place_base]
    exact ⟨by simp only [slide]; omega, Or.inr (by simp only [slide]; omega)⟩
  · exact ⟨by simp only [overrun]; omega, Or.inr (by simp only [overrun]; omega)⟩

/-- Where a packet is held after an insert: it was there before, or it is the one put
in, which then is neither stale nor a duplicate. -/
theorem insert_filled (h : WF cap w) {p x : Int} {data d : Bytes} {now a : Instant}
    (hx : (w.insert cap p data now).1.cell x = .filled d a) :
    w.cell x = .filled d a ∨
      (x = p ∧ d = data ∧ a = now ∧ (w.insert cap p data now).2.stale = false ∧
        (w.insert cap p data now).2.duplicate = false) := by
  have hreach : ∀ w₀ : Window, (w₀.reach p data now).cell x = .filled d a →
      w₀.cell x = .filled d a ∨ (x = p ∧ d = data ∧ a = now) := by
    intro w₀ hx
    simp only [reach] at hx
    split_ifs at hx with h1 h2
    · exact Or.inr ⟨h1, (Cell.filled.inj hx).1.symm, (Cell.filled.inj hx).2.symm⟩
    · exact Or.inl hx
  rcases insert_cases h p data now with ⟨-, ho⟩ | ⟨-, -, -, ho⟩ | ⟨-, -, -, r, ho⟩ |
    ⟨-, -, -, ho⟩ | ⟨-, -, -, ho⟩ | ⟨-, -, ho⟩ | ⟨-, ho⟩
  · rw [ho] at hx
    exact Or.inl hx
  · rw [ho] at hx
    exact Or.inl hx
  · rw [ho] at hx ⊢
    by_cases hp : x = p
    · subst hp
      simp only [fill, Function.update_self] at hx
      exact Or.inr ⟨rfl, (Cell.filled.inj hx).1.symm, (Cell.filled.inj hx).2.symm, rfl, rfl⟩
    · simp only [fill, Function.update_of_ne hp] at hx
      exact Or.inl hx
  · rw [ho] at hx ⊢
    refine (hreach w hx).imp_right ?_
    rintro ⟨h1, h2, h3⟩
    exact ⟨h1, h2, h3, rfl, rfl⟩
  · rw [ho] at hx ⊢
    simp only [anchor] at hx
    split_ifs at hx with h1
    exact Or.inr ⟨h1, (Cell.filled.inj hx).1.symm, (Cell.filled.inj hx).2.symm, rfl, rfl⟩
  · rw [ho] at hx ⊢
    rcases hreach _ hx with hold | ⟨h1, h2, h3⟩
    · simp only [slide] at hold
      split_ifs at hold
      exact Or.inl hold
    · exact Or.inr ⟨h1, h2, h3, rfl, rfl⟩
  · rw [ho] at hx
    simp only [overrun] at hx
    split_ifs at hx

/-- The loop rule for drains: what one turn keeps, a whole drain keeps. -/
theorem drainLoop_invariant (hold : Duration) (now : Instant) {I : Window → List DrainItem → Prop}
    (hstep : ∀ w out w' item, I w out → w.drainStep hold now = some (w', item) →
      I w' (out ++ [item])) :
    ∀ (fuel : Nat) (w : Window) (out : List DrainItem), I w out →
      I (w.drainLoop hold now fuel).1 (out ++ (w.drainLoop hold now fuel).2) := by
  intro fuel
  induction fuel with
  | zero => intro w out h; simpa [drainLoop] using h
  | succ fuel ih =>
      intro w out h
      rw [drainLoop]
      split
      · simpa using h
      · rename_i w' item hs
        have := ih w' (out ++ [item]) (hstep w out w' item h hs)
        simpa using this

/-- A drain moves the base by one position for every item. -/
theorem drainLoop_base (hold : Duration) (now : Instant) (h : WF cap w) (fuel : Nat) :
    (w.drainLoop hold now fuel).1.base = w.base + (w.drainLoop hold now fuel).2.length ∧
    (w.drainLoop hold now fuel).1.high = w.high ∧ WF cap (w.drainLoop hold now fuel).1 := by
  have hloop := drainLoop_invariant hold now
    (I := fun w' out => w'.base = w.base + out.length ∧ w'.high = w.high ∧ WF cap w')
    (by
      intro w₁ out w₂ item ⟨h1, h2, h3⟩ hs
      obtain ⟨rfl, -, hwf⟩ := drainStep_wf h3 hs
      refine ⟨?_, h2, hwf⟩
      simp only [slide, List.length_append, List.length_singleton]
      omega)
    fuel w [] ⟨by simp, rfl, h⟩
  simpa using hloop

end Window

namespace Recording

theorem buf_step_insert (r : Recording) (seq : UInt16) (data : Bytes) (now : Instant) :
    (r.step (.insert seq data now)).buf = (r.buf.insert seq data now).1 := by
  simp only [step]
  split <;> rfl

theorem capacity_step (r : Recording) (op : BufferOp) :
    (r.step op).buf.capacity = r.buf.capacity := by
  cases op with
  | insert seq data now =>
      rw [buf_step_insert]
      exact (ReorderBuffer.insert_shape seq data now).capacity
  | drain now => exact ReorderBuffer.drainLoop_capacity now _ r.buf

/-! ### The diary follows the window -/

/-- The buffer stands for `w`, and the diary's base is the window's. -/
structure Tracks (r : Recording) (w : Window) : Prop where
  refines : ReorderBuffer.Refines r.buf w
  base : r.base = w.base

/-- Nothing has been inserted yet. -/
structure Fresh (r : Recording) : Prop where
  bits : r.buf.slots.bits ≤ 14
  baseSeq : r.buf.baseSeq = none
  empty : ∀ q, (r.buf.slot q).state = .empty
  arrivals : r.arrivals = []
  releases : r.releases = []
  base : r.base = r.first

theorem start_fresh (hold : Duration) {capacity : Nat} (hcap : capacity ≤ 16384) :
    Fresh (start (ReorderBuffer.withCapacity hold capacity)) := by
  refine ⟨?_, rfl, ?_, rfl, rfl, rfl⟩
  · show max (Nat.clog 2 capacity) 6 ≤ 14
    have : Nat.clog 2 capacity ≤ 14 := Nat.clog_le_of_le_pow hcap
    omega
  · intro q
    show ((SlotRing.replicate _ Slot.cleared).get _).state = .empty
    rw [SlotRing.get_replicate]
    rfl

variable {r : Recording} {w : Window}

theorem ofInt_toNat (s : UInt16) : UInt16.ofInt (s.toNat : Int) = s := by
  have := s.toNat_lt
  rw [eq_iff_toNat, toNat_ofInt]
  omega

/-- The first packet is both ends of the window. -/
theorem Fresh.insert (h : Fresh r) (seq : UInt16) (data : Bytes) (now : Instant) :
    Tracks (r.step (.insert seq data now)) (Window.anchor seq.toNat data now) ∧
    (r.step (.insert seq data now)).buf.capacity = r.buf.capacity ∧
    (r.step (.insert seq data now)).buf.bufferTime = r.buf.bufferTime ∧
    (r.step (.insert seq data now)).first = seq.toNat ∧
    (r.step (.insert seq data now)).arrivals
      = [⟨seq.toNat, seq.toNat, seq, data, now, {}⟩] ∧
    (r.step (.insert seq data now)).releases = [] := by
  have hins := ReorderBuffer.insert_of_none (Or.inl h.baseSeq) seq data now
  simp only [step, hins, h.baseSeq, h.arrivals, h.releases]
  refine ⟨⟨?_, rfl⟩, rfl, rfl, trivial, rfl, trivial⟩
  have := ReorderBuffer.anchor_refines h.bits (fun q => h.empty _) (seq.toNat : Int) data now
  rwa [ofInt_toNat] at this

theorem Fresh.drain (h : Fresh r) (now : Instant) :
    (r.step (.drain now)) = { r with clock := now } := by
  have hnone : r.buf.drainStep now = none := by
    unfold ReorderBuffer.drainStep
    rw [h.baseSeq]
  simp only [step, ReorderBuffer.drainReady_of_none hnone, h.baseSeq, advance]
  simp

theorem advance_of_le {p q : Int} (h1 : p ≤ q) (h2 : q < p + 65536) :
    advance (some (UInt16.ofInt p)) (some (UInt16.ofInt q)) = q - p :=
  toNat_sub_ofInt (by omega) (by omega)

/-- **What an insert does to window and diary.** -/
theorem Tracks.insert (h : Tracks r w) (seq : UInt16) (data : Bytes) (now : Instant) :
    Tracks (r.step (.insert seq data now))
      (w.insert r.buf.capacity (near w.base seq) data now).1 ∧
    (r.step (.insert seq data now)).first = r.first ∧
    (r.step (.insert seq data now)).arrivals = r.arrivals ++
      [⟨near w.base seq, w.base, seq, data, now,
        (w.insert r.buf.capacity (near w.base seq) data now).2⟩] ∧
    (r.step (.insert seq data now)).releases = r.releases := by
  obtain ⟨href, hout⟩ := ReorderBuffer.insert_refines h.refines seq data now
  obtain ⟨hmono, hle⟩ := Window.insert_base h.refines.wf (near w.base seq) data now
  obtain ⟨-, hnear⟩ := near_bounds w.base seq
  simp only [step, h.refines.base]
  refine ⟨⟨href, ?_⟩, trivial, ?_, trivial⟩
  · rw [href.base, advance_of_le hmono (by omega), h.base]
    exact add_sub_cancel w.base _
  · rw [hout, h.base]
    rfl

/-- **What a drain does to window and diary.** -/
theorem Tracks.drainReady (h : Tracks r w) (now : Instant) :
    Tracks (r.step (.drain now)) (w.drainLoop r.buf.bufferTime now r.buf.drainFuel).1 ∧
    (r.buf.drainReady now).2 = (w.drainLoop r.buf.bufferTime now r.buf.drainFuel).2 := by
  obtain ⟨href, hitems⟩ := ReorderBuffer.drainReady_refines h.refines now
  obtain ⟨hbase, hhigh, hwf⟩ := Window.drainLoop_base r.buf.bufferTime now
    h.refines.wf r.buf.drainFuel
  have hcap := ReorderBuffer.capacity_le h.refines.bits
  have hlt := h.refines.wf.high_lt
  have hle := hwf.base_le
  refine ⟨⟨href, ?_⟩, hitems⟩
  simp only [step]
  rw [h.refines.base, href.base, advance_of_le (by omega) (by omega), h.base]
  omega

theorem Tracks.drain (h : Tracks r w) (now : Instant) :
    ∃ fuel, Tracks (r.step (.drain now)) (w.drainLoop r.buf.bufferTime now fuel).1 ∧
      (r.step (.drain now)).first = r.first ∧
      (r.step (.drain now)).arrivals = r.arrivals ∧
      (r.step (.drain now)).releases = r.releases ++
        (w.drainLoop r.buf.bufferTime now fuel).2.map fun item => ⟨item, now⟩ := by
  obtain ⟨htr, hitems⟩ := h.drainReady now
  refine ⟨r.buf.drainFuel, htr, rfl, rfl, ?_⟩
  simp only [step, hitems]

end Recording

end Rist
