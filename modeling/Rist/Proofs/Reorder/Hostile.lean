/-
The reorder buffer under hostile sequence numbers.

Nothing is assumed of the numbers or of the times.  A run is recorded with the position
every item was drained at, which is the base at its turn.  Two facts carry the result.
The base only moves forward, so items leave at positions that increase.  And whatever
the window holds was brought by one insert, at the position it is held at (`Sourced`);
a flush, a reset or an overrun can only take packets away.

A packet that left twice would have left at one position twice.
-/
import Mathlib.Data.List.Forall2
import Rist.Proofs.Reorder.Overflow

namespace Rist

open Serial

namespace Window

variable {cap : Int} {w : Window}

/-- What a drain delivers was held at the position it leaves at, and what is held
afterwards was held before. -/
theorem drainLoop_items (hold : Duration) (now : Instant) (w : Window) (fuel : Nat) :
    (∀ (k : Nat) d q a, (w.drainLoop hold now fuel).2[k]? = some (.delivered d q a) →
      w.cell (w.base + k) = .filled d a ∧ q = UInt16.ofInt (w.base + k)) ∧
    ∀ p d a, (w.drainLoop hold now fuel).1.cell p = .filled d a → w.cell p = .filled d a := by
  have hloop := drainLoop_invariant hold now
    (I := fun w' out => w'.base = w.base + out.length ∧
      (∀ (k : Nat) d q a, out[k]? = some (.delivered d q a) →
        w.cell (w.base + k) = .filled d a ∧ q = UInt16.ofInt (w.base + k)) ∧
      ∀ p d a, w'.cell p = .filled d a → w.cell p = .filled d a)
    (by
      intro w₁ out w₂ item ⟨hbase, hitems, hcells⟩ hs
      obtain ⟨hle, rfl, hitem⟩ := drainStep_cases hs
      refine ⟨?_, ?_, ?_⟩
      · simp only [slide, List.length_append, List.length_singleton]
        omega
      · intro k d q a hk
        rcases Nat.lt_trichotomy k out.length with hlt | rfl | hgt
        · rw [List.getElem?_append_left hlt] at hk
          exact hitems k d q a hk
        · rw [List.getElem?_concat_length] at hk
          rcases hitem with ⟨data, arrival, hcell, -, rfl⟩ | ⟨rfl, -⟩
          · cases hk
            rw [← hbase]
            exact ⟨hcells _ _ _ hcell, rfl⟩
          · cases hk
        · rw [List.getElem?_eq_none (by simp; omega)] at hk
          cases hk
      · intro p d a hp
        simp only [slide] at hp
        split_ifs at hp
        exact hcells p d a hp)
    fuel w [] ⟨by simp, by simp, fun p d a hp => hp⟩
  rw [List.nil_append] at hloop
  exact hloop.2

/-- A drain produces at most one item for every position of the window. -/
theorem drainLoop_length (hold : Duration) (now : Instant) (h : WF cap w) (fuel : Nat) :
    ((w.drainLoop hold now fuel).2.length : Int) ≤ cap := by
  obtain ⟨hbase, hhigh, hwf⟩ := drainLoop_base hold now h fuel
  have hle := hwf.base_le
  have hlt := h.high_lt
  omega

end Window

/-- The insert that brought a packet to position `p`. -/
structure Arrival.Brought (x : Arrival) (p : Int) (data : Bytes) (arrival : Instant) : Prop where
  pos : x.pos = p
  seq : x.seq = UInt16.ofInt p
  data : x.data = data
  now : x.now = arrival
  accepted : x.outcome.stale = false ∧ x.outcome.duplicate = false

/-- A recording, with the position every item was drained at. -/
structure Trace where
  diary : Recording
  out : List (Int × DrainItem)

namespace Trace

def start (b : ReorderBuffer) : Trace := ⟨Recording.start b, []⟩

def step (t : Trace) (op : BufferOp) : Trace where
  diary := t.diary.step op
  out :=
    match op with
    | .insert _ _ _ => t.out
    | .drain now =>
      t.out ++ (t.diary.buf.drainReady now).2.zipIdx.map fun x => (t.diary.base + x.2, x.1)

/-- The packets among the items. -/
def deliveries (t : Trace) : List (Int × DrainItem) := t.out.filter fun x => x.2.isDelivered

/-- What the window holds was brought there. -/
def Sourced (arrivals : List Arrival) (w : Window) : Prop :=
  ∀ p d a, w.cell p = .filled d a → ∃ x ∈ arrivals, x.Brought p d a

/-- The trace after some calls: where it stands, what it holds and what it has given
out, in order. -/
structure Sound (t : Trace) (w : Window) : Prop where
  tracks : Recording.Tracks t.diary w
  sourced : Sourced t.diary.arrivals w
  increasing : (t.out.map Prod.fst).Pairwise (· < ·)
  past : ∀ x ∈ t.out, x.1 < w.base
  delivered : ∀ p d q a, (p, DrainItem.delivered d q a) ∈ t.out →
    q = UInt16.ofInt p ∧ ∃ x ∈ t.diary.arrivals, x.Brought p d a

/-- A state a run can be in. -/
def Reached (t : Trace) : Prop :=
  (Recording.Fresh t.diary ∧ t.out = []) ∨ ∃ w, Sound t w

variable {t : Trace} {w : Window}

theorem Sourced.mono {arrivals : List Arrival} (h : Sourced arrivals w) (more : List Arrival) :
    Sourced (arrivals ++ more) w := by
  intro p d a hcell
  obtain ⟨x, hx, hbrought⟩ := h p d a hcell
  exact ⟨x, List.mem_append_left more hx, hbrought⟩

theorem Sound.insert (h : Sound t w) (seq : UInt16) (data : Bytes) (now : Instant) :
    Sound (t.step (.insert seq data now))
      (w.insert t.diary.buf.capacity (near w.base seq) data now).1 := by
  obtain ⟨htr, -, harr, -⟩ := h.tracks.insert seq data now
  obtain ⟨hmono, -⟩ := Window.insert_base h.tracks.refines.wf (near w.base seq) data now
  refine ⟨htr, ?_, h.increasing, ?_, ?_⟩
  · show Sourced (t.diary.step (.insert seq data now)).arrivals _
    rw [harr]
    intro p d a hcell
    rcases Window.insert_filled h.tracks.refines.wf hcell with hold | ⟨rfl, rfl, rfl, hout⟩
    · exact h.sourced.mono _ p d a hold
    · exact ⟨_, List.mem_append_right _ (List.mem_singleton_self _), rfl,
        (ofInt_near w.base seq).symm, rfl, rfl, hout⟩
  · intro x hx
    exact Int.lt_of_lt_of_le (h.past x hx) hmono
  · intro p d q a hmem
    obtain ⟨hq, x, hx, hbrought⟩ := h.delivered p d q a hmem
    refine ⟨hq, x, ?_, hbrought⟩
    show x ∈ (t.diary.step (.insert seq data now)).arrivals
    rw [harr]
    exact List.mem_append_left _ hx

/-- The items of a drain, in order and with their positions. -/
theorem mem_zipIdx_map {base : Int} {items : List DrainItem} {x : Int × DrainItem} :
    x ∈ items.zipIdx.map (fun y => (base + (y.2 : Int), y.1)) ↔
      ∃ k : Nat, items[k]? = some x.2 ∧ x.1 = base + k := by
  rw [List.mem_map]
  constructor
  · intro ⟨⟨item, k⟩, hmem, heq⟩
    rw [← heq]
    exact ⟨k, List.mk_mem_zipIdx_iff_getElem?.mp hmem, rfl⟩
  · intro ⟨k, hk, hpos⟩
    exact ⟨(x.2, k), List.mk_mem_zipIdx_iff_getElem?.mpr hk, Prod.ext hpos.symm rfl⟩

theorem pairwise_zipIdx_map (base : Int) (items : List DrainItem) :
    ((items.zipIdx.map fun y => (base + (y.2 : Int), y.1)).map Prod.fst).Pairwise (· < ·) := by
  have hpos : (items.zipIdx.map fun y => (base + (y.2 : Int), y.1)).map Prod.fst
      = (List.range' 0 items.length).map fun k : Nat => base + (k : Int) := by
    rw [List.map_map, ← List.zipIdx_map_snd 0 items, List.map_map]
    rfl
  rw [hpos, List.pairwise_map]
  refine (List.pairwise_lt_range' 1 (by decide)).imp fun hlt => ?_
  omega

theorem Sound.drain (h : Sound t w) (now : Instant) :
    Sound (t.step (.drain now))
      (w.drainLoop t.diary.buf.bufferTime now t.diary.buf.drainFuel).1 := by
  obtain ⟨htr, hitems⟩ := h.tracks.drainReady now
  obtain ⟨hfrom, hcells⟩ := Window.drainLoop_items t.diary.buf.bufferTime now w
    t.diary.buf.drainFuel
  obtain ⟨hbase, -, -⟩ := Window.drainLoop_base t.diary.buf.bufferTime now h.tracks.refines.wf
    t.diary.buf.drainFuel
  have hout : (t.step (.drain now)).out = t.out ++
      (w.drainLoop t.diary.buf.bufferTime now t.diary.buf.drainFuel).2.zipIdx.map
        fun x => (w.base + (x.2 : Int), x.1) := by
    show t.out ++ _ = _
    rw [hitems, h.tracks.base]
  generalize w.drainLoop t.diary.buf.bufferTime now t.diary.buf.drainFuel = drained at *
  refine ⟨htr, ?_, ?_, ?_, ?_⟩
  · intro p d a hcell
    exact h.sourced p d a (hcells p d a hcell)
  · rw [hout, List.map_append, List.pairwise_append]
    refine ⟨h.increasing, pairwise_zipIdx_map w.base drained.2, ?_⟩
    intro p hp q hq
    obtain ⟨x, hx, rfl⟩ := List.mem_map.mp hp
    obtain ⟨y, hy, rfl⟩ := List.mem_map.mp hq
    obtain ⟨k, -, hk⟩ := mem_zipIdx_map.mp hy
    have := h.past x hx
    omega
  · intro x hx
    rw [hout] at hx
    rcases List.mem_append.mp hx with hx | hx
    · have := h.past x hx
      omega
    · obtain ⟨k, hk, hpos⟩ := mem_zipIdx_map.mp hx
      have := (List.getElem?_eq_some_iff.mp hk).1
      omega
  · intro p d q a hmem
    rw [hout] at hmem
    rcases List.mem_append.mp hmem with hmem | hmem
    · exact h.delivered p d q a hmem
    · obtain ⟨k, hk, hpos⟩ := mem_zipIdx_map.mp hmem
      obtain ⟨hcell, hq⟩ := hfrom k d q a hk
      simp only at hpos
      rw [hpos]
      exact ⟨hq, h.sourced _ d a hcell⟩

theorem Reached.step (h : Reached t) (op : BufferOp) : Reached (t.step op) := by
  rcases h with ⟨hfresh, hout⟩ | ⟨w, h⟩
  · cases op with
    | insert seq data now =>
        obtain ⟨htr, -, -, -, harr, -⟩ := hfresh.insert seq data now
        have hnone : (t.step (.insert seq data now)).out = [] := hout
        refine Or.inr ⟨_, htr, ?_, ?_, ?_, ?_⟩
        · show Sourced (t.diary.step (.insert seq data now)).arrivals _
          rw [harr]
          intro p d a hcell
          simp only [Window.anchor] at hcell
          split_ifs at hcell with hp
          cases hcell
          rw [hp]
          exact ⟨_, List.mem_singleton_self _, rfl, (Recording.ofInt_toNat seq).symm, rfl, rfl,
            rfl, rfl⟩
        · rw [hnone]
          exact List.Pairwise.nil
        · rw [hnone]
          intro x hx
          exact absurd hx List.not_mem_nil
        · rw [hnone]
          intro p d q a hx
          exact absurd hx List.not_mem_nil
    | drain now =>
        refine Or.inl ⟨hfresh.clock_drain now, ?_⟩
        have hnone : t.diary.buf.drainStep now = none := by
          unfold ReorderBuffer.drainStep
          rw [hfresh.baseSeq]
        show t.out ++ _ = []
        rw [hout, ReorderBuffer.drainReady_of_none hnone]
        rfl
  · cases op with
    | insert seq data now => exact Or.inr ⟨_, h.insert seq data now⟩
    | drain now => exact Or.inr ⟨_, h.drain now⟩

/-! ### Every insert at most once -/

/-- The item `x` is the packet of the `k`th insert, which was neither stale nor a
duplicate, and leaves at its position. -/
def Delivers (arrivals : List Arrival) (k : Nat) (x : Int × DrainItem) : Prop :=
  ∃ a, arrivals[k]? = some a ∧ x = (a.pos, .delivered a.data a.seq a.now) ∧
    a.outcome.stale = false ∧ a.outcome.duplicate = false

theorem exists_forall₂ {α β : Type} {R : α → β → Prop} {l : List β} (h : ∀ x ∈ l, ∃ k, R k x) :
    ∃ ks, List.Forall₂ R ks l := by
  induction l with
  | nil => exact ⟨[], List.Forall₂.nil⟩
  | cons x l ih =>
      obtain ⟨k, hk⟩ := h x List.mem_cons_self
      obtain ⟨ks, hks⟩ := ih fun y hy => h y (List.mem_cons_of_mem x hy)
      exact ⟨k :: ks, hks.cons hk⟩

/-- Items at different positions come from different inserts. -/
theorem nodup_of_delivers {arrivals : List Arrival} {ks : List Nat} {l : List (Int × DrainItem)}
    (h : List.Forall₂ (Delivers arrivals) ks l) (hpos : (l.map Prod.fst).Pairwise (· < ·)) :
    ks.Nodup := by
  induction h with
  | nil => exact List.nodup_nil
  | @cons k x ks l hk hks ih =>
      rw [List.map_cons, List.pairwise_cons] at hpos
      refine List.nodup_cons.mpr ⟨?_, ih hpos.2⟩
      intro hmem
      obtain ⟨i, hi, hget⟩ := List.mem_iff_getElem.mp hmem
      have hil : i < l.length := hks.length_eq ▸ hi
      obtain ⟨b, hb, hy, -⟩ := hks.get hi hil
      obtain ⟨a, ha, hx, -⟩ := hk
      rw [List.get_eq_getElem, hget, ha] at hb
      have hlt := hpos.1 (l.get ⟨i, hil⟩).1 (List.mem_map_of_mem (List.get_mem l ⟨i, hil⟩))
      rw [hx, hy, Option.some.inj hb] at hlt
      exact absurd hlt (Int.lt_irrefl _)

theorem Sound.delivers (h : Sound t w) :
    ∃ ks : List Nat, ks.Nodup ∧
      List.Forall₂ (Delivers t.diary.arrivals) ks t.deliveries := by
  have hall : ∀ x ∈ t.deliveries, ∃ k, Delivers t.diary.arrivals k x := by
    intro ⟨p, item⟩ hx
    obtain ⟨hmem, hdel⟩ := List.mem_filter.mp hx
    cases item with
    | lost => cases hdel
    | delivered d q a =>
        obtain ⟨hq, x, hin, hbrought⟩ := h.delivered p d q a hmem
        obtain ⟨k, hk⟩ := List.mem_iff_getElem?.mp hin
        refine ⟨k, x, hk, ?_, hbrought.accepted⟩
        rw [hq, ← hbrought.seq, ← hbrought.pos, ← hbrought.data, ← hbrought.now]
  obtain ⟨ks, hks⟩ := exists_forall₂ hall
  refine ⟨ks, nodup_of_delivers hks ?_, hks⟩
  exact h.increasing.sublist (List.filter_sublist.map Prod.fst)

/-! ### Whole runs -/

/-- The base does not move backwards, and the recorded position follows it. -/
def Forward (t : Trace) (op : BufferOp) : Prop :=
  ∀ b ∈ t.diary.buf.baseSeq, ∃ b' ∈ (t.step op).diary.buf.baseSeq,
    0 ≤ asI16 (b' - b) ∧ (t.step op).diary.base = t.diary.base + asI16 (b' - b)

/-- The loop of a drain ends by itself, after at most as many items as the ring has
slots. -/
def Ends (t : Trace) : BufferOp → Prop
  | .insert _ _ _ => True
  | .drain now =>
    (t.diary.buf.drainReady now).2.length ≤ t.diary.buf.capacity ∧
      (t.diary.buf.drainReady now).1.drainStep now = none

theorem Sound.forward (h : Sound t w) (op : BufferOp) : Forward t op := by
  have hmove : ∃ w', Recording.Tracks (t.step op).diary w' ∧ w.base ≤ w'.base ∧
      w'.base - w.base < 32768 := by
    cases op with
    | insert seq data now =>
        obtain ⟨hmono, hle⟩ := Window.insert_base h.tracks.refines.wf (near w.base seq) data now
        obtain ⟨-, hnear⟩ := near_bounds w.base seq
        exact ⟨_, (h.tracks.insert seq data now).1, hmono, by omega⟩
    | drain now =>
        obtain ⟨hbase, -, -⟩ := Window.drainLoop_base t.diary.buf.bufferTime now
          h.tracks.refines.wf t.diary.buf.drainFuel
        have hlen := Window.drainLoop_length t.diary.buf.bufferTime now h.tracks.refines.wf
          t.diary.buf.drainFuel
        have hcap := ReorderBuffer.capacity_le h.tracks.refines.bits
        exact ⟨_, (h.tracks.drainReady now).1, by omega, by omega⟩
  obtain ⟨w', htr, hle, hlt⟩ := hmove
  intro b hb
  rw [h.tracks.refines.base] at hb
  cases hb
  have hdist := asI16_sub_ofInt (p := w'.base) (q := w.base) (by omega) (by omega)
  refine ⟨_, htr.refines.base, ?_, ?_⟩
  · rw [hdist]
    omega
  · rw [hdist, htr.base, h.tracks.base]
    omega

theorem Sound.ends (h : Sound t w) (op : BufferOp) : Ends t op := by
  cases op with
  | insert seq data now => trivial
  | drain now =>
      refine ⟨?_, ReorderBuffer.drainReady_done _ now⟩
      have hlen := Window.drainLoop_length t.diary.buf.bufferTime now h.tracks.refines.wf
        t.diary.buf.drainFuel
      rw [(h.tracks.drainReady now).2]
      omega

theorem Reached.forward (h : Reached t) (op : BufferOp) : Forward t op := by
  rcases h with ⟨hfresh, -⟩ | ⟨w, h⟩
  · intro b hb
    rw [hfresh.baseSeq] at hb
    cases hb
  · exact h.forward op

theorem Reached.ends (h : Reached t) (op : BufferOp) : Ends t op := by
  rcases h with ⟨hfresh, -⟩ | ⟨w, h⟩
  · cases op with
    | insert seq data now => trivial
    | drain now =>
        have hnone : t.diary.buf.drainStep now = none := by
          unfold ReorderBuffer.drainStep
          rw [hfresh.baseSeq]
        refine ⟨?_, ReorderBuffer.drainReady_done _ now⟩
        rw [ReorderBuffer.drainReady_of_none hnone]
        exact Nat.zero_le _
  · exact h.ends op

/-- **The reorder buffer under hostile numbers.**  In every run, whatever the numbers and
the times, the base never moves backwards, every drain ends by itself after at most one
item for every slot, every packet delivered is that of an insert that was neither stale
nor a duplicate and leaves at its position, no insert is delivered twice, and positions
leave in increasing order. -/
theorem hostile_run (hold : Duration) {capacity : Nat} (hcap : capacity ≤ 16384)
    (ops : List BufferOp) :
    Run.Along step (fun t op => Forward t op ∧ Ends t op)
      (start (ReorderBuffer.withCapacity hold capacity)) ops ∧
    (∃ ks : List Nat, ks.Nodup ∧
      List.Forall₂ (Delivers
          (Run.final step (start (ReorderBuffer.withCapacity hold capacity)) ops).diary.arrivals) ks
        (Run.final step (start (ReorderBuffer.withCapacity hold capacity)) ops).deliveries) ∧
    ((Run.final step (start (ReorderBuffer.withCapacity hold capacity)) ops).deliveries.map
      Prod.fst).Pairwise (· < ·) := by
  have hstart : Reached (start (ReorderBuffer.withCapacity hold capacity)) :=
    Or.inl ⟨Recording.start_fresh hold hcap, rfl⟩
  have hend := Run.invariant_of_step (I := Reached) (fun t op h => h.step op) hstart ops
  refine ⟨?_, ?_, ?_⟩
  · rw [Run.along_iff]
    intro pre op post _
    have hreached := Run.invariant_of_step (I := Reached) (fun t op h => h.step op) hstart pre
    exact ⟨hreached.forward op, hreached.ends op⟩
  · rcases hend with ⟨-, hout⟩ | ⟨w, h⟩
    · unfold deliveries
      rw [hout]
      exact ⟨[], List.nodup_nil, List.Forall₂.nil⟩
    · exact h.delivers
  · rcases hend with ⟨-, hout⟩ | ⟨w, h⟩
    · unfold deliveries
      rw [hout]
      exact List.Pairwise.nil
    · exact h.increasing.sublist (List.filter_sublist.map Prod.fst)

/-- A wrap, a stale copy, a flush and a jump of half the circle. -/
def hostileOps : List BufferOp :=
  [.insert 65535 [1] 7, .insert 0 [2] 3, .drain 20, .insert 65535 [1] 21, .insert 64 [3] 2,
    .insert 32000 [4] 5, .drain 40]

theorem hostile_run_wrap :
    (Run.final step (start (ReorderBuffer.withCapacity 5 64)) hostileOps).deliveries
        = [(65535, .delivered [1] 65535 7), (65536, .delivered [2] 0 3),
          (97536, .delivered [4] 32000 5)] ∧
      Run.Along step (fun t op => Forward t op ∧ Ends t op)
        (start (ReorderBuffer.withCapacity 5 64)) hostileOps :=
  ⟨by decide +kernel, (hostile_run 5 (by decide) hostileOps).1⟩

end Trace

end Rist
