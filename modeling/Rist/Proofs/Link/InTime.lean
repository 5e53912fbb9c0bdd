/-
What arrives in time is delivered.

A packet is in time while the base has not passed its position.  It is then put in its place,
and leaves it in one way only: an insert gives packets up for one that comes a whole ring
ahead of the base, and where no packet does, only a drain takes a packet out, and delivers
it.  A drain stops at a packet or a gap that is younger than the hold time, so one that comes
a hold time after the last packet stops at nothing.
-/
import Rist.Proofs.Link.Closed

namespace Rist

/-! ### The window -/

/-- What is in the cell has been there since `t` or before. -/
def Cell.By (t : Instant) : Cell → Prop
  | .filled _ arrival => arrival ≤ t
  | .gap noticed => noticed ≤ t
  | _ => True

namespace Window

variable {cap : Int} {w : Window} {t now : Instant}

def Stamped (t : Instant) (w : Window) : Prop := ∀ x, (w.cell x).By t

theorem stamped_anchor (hnow : now ≤ t) (p : Int) (data : Bytes) : (anchor p data now).Stamped t := by
  intro x
  simp only [anchor]
  split_ifs
  · exact hnow
  · trivial

theorem Stamped.reach (hw : w.Stamped t) (hnow : now ≤ t) (p : Int) (data : Bytes) :
    (w.reach p data now).Stamped t := by
  intro x
  simp only [Window.reach]
  split_ifs
  · exact hnow
  · exact hnow
  · exact hw x

theorem Stamped.slide (hw : w.Stamped t) (lo : Int) : (w.slide lo).Stamped t := by
  intro x
  simp only [Window.slide]
  split_ifs
  · trivial
  · exact hw x

theorem Stamped.insert (hw : w.Stamped t) (h : WF cap w) (hnow : now ≤ t) (p : Int)
    (data : Bytes) : (w.insert cap p data now).1.Stamped t := by
  rcases insert_cases h p data now with ⟨-, ho⟩ | ⟨-, -, -, ho⟩ | ⟨-, -, -, r, ho⟩ |
    ⟨-, -, -, ho⟩ | ⟨-, -, -, ho⟩ | ⟨-, -, ho⟩ | ⟨-, ho⟩
  · rw [ho]
    exact hw
  · rw [ho]
    exact hw
  · rw [ho]
    intro x
    by_cases hx : x = p
    · simp only [fill, hx, Function.update_self]
      exact hnow
    · simp only [fill, Function.update_of_ne hx]
      exact hw x
  · rw [ho]
    exact hw.reach hnow p data
  · rw [ho]
    exact stamped_anchor hnow p data
  · rw [ho]
    exact (hw.slide _).reach hnow p data
  · rw [ho]
    intro x
    simp only [overrun]
    split_ifs
    · trivial
    · exact hnow
    · trivial

theorem Stamped.drainLoop (hw : w.Stamped t) (hold : Duration) (fuel : Nat) :
    (w.drainLoop hold now fuel).1.Stamped t := by
  refine drainLoop_invariant hold now (I := fun w _ => w.Stamped t) ?_ fuel w [] hw
  intro w₁ out w₂ item hw₁ hs
  obtain ⟨-, rfl, -⟩ := drainStep_cases hs
  exact hw₁.slide _

/-- A packet less than a ring ahead leaves the base where it is. -/
theorem insert_base_of_room (h : WF cap w) {p : Int} (hroom : p < w.base + cap) (data : Bytes)
    (now : Instant) : (w.insert cap p data now).1.base = w.base := by
  rcases insert_cases h p data now with ⟨-, ho⟩ | ⟨-, -, -, ho⟩ | ⟨-, -, -, r, ho⟩ |
    ⟨-, -, -, ho⟩ | ⟨hfar, -⟩ | ⟨hfar, -⟩ | ⟨⟨-, hfar, -⟩, -⟩
  · rw [ho]
  · rw [ho]
  · rw [ho]
    rfl
  · rw [ho]
    rfl
  all_goals omega

/-- A packet in time, and less than a ring ahead, is held. -/
theorem insert_puts (h : WF cap w) {p : Int} (hlo : w.base ≤ p) (hroom : p < w.base + cap)
    (data : Bytes) (now : Instant) : ∃ d a, (w.insert cap p data now).1.cell p = .filled d a := by
  rcases insert_cases h p data now with ⟨hstale, -⟩ | ⟨-, -, hfilled, ho⟩ | ⟨-, -, -, r, ho⟩ |
    ⟨-, -, -, ho⟩ | ⟨hfar, -⟩ | ⟨hfar, -⟩ | ⟨⟨-, hfar, -⟩, -⟩
  · omega
  · rw [ho]
    exact Cell.isFilled_iff.mp hfilled
  · rw [ho]
    exact ⟨data, now, by simp [fill]⟩
  · rw [ho]
    exact ⟨data, now, by simp [reach]⟩
  all_goals omega

/-- A drain late enough stops at nothing. -/
theorem high_lt_base_of_late {hold : Duration} (h : WF cap w) (hw : w.Stamped t)
    (hlate : t + hold ≤ now) (hdone : w.drainStep hold now = none) : w.high < w.base := by
  by_contra hle
  have hdue : ∀ a, a ≤ t → hold ≤ now - a := fun a ha =>
    Nat.le_sub_of_add_le' ((Nat.add_le_add_right ha hold).trans hlate)
  have hhead := hw w.base
  unfold drainStep at hdone
  rw [if_neg hle] at hdone
  cases hcell : w.cell w.base with
  | filled data arrival =>
      rw [hcell] at hdone hhead
      simp only [if_pos (hdue arrival hhead)] at hdone
      exact absurd hdone (by simp)
  | gap noticed =>
      rw [hcell] at hdone hhead
      simp only [if_pos (hdue noticed hhead)] at hdone
      exact absurd hdone (by simp)
  | hole =>
      rw [hcell] at hdone
      exact absurd hdone (by simp)
  | empty => exact h.inside w.base (Int.le_refl _) (by omega) hcell

end Window

/-! ### The packets of a stream -/

namespace Heard

open Session

variable {ssrc : UInt32} {first : UInt16} {h : Heard} {s s' : Session} {kept : List Nat}
  {now : Instant} {d : Nat × UInt64} {f : Flight}

/-- The packets of a datagram that the base has not passed. -/
def inTime (h : Heard) (d : Nat × UInt64) : List Nat :=
  match h.session.network[d.1]? with
  | some f =>
    if h.session.buffer.baseSeq = none ∨ h.session.baseIndex ≤ f.index then [f.index] else []
  | none => []

/-- No packet comes a whole ring ahead of the base. -/
def Room (h : Heard) (d : Nat × UInt64) : Prop :=
  ∀ f ∈ h.session.network[d.1]?, h.session.buffer.baseSeq ≠ none →
    (f.index : Int) < h.session.baseIndex + h.session.buffer.capacity

instance (h : Heard) (d : Nat × UInt64) : Decidable (Room h d) :=
  inferInstanceAs (Decidable (∀ f ∈ h.session.network[d.1]?, h.session.buffer.baseSeq ≠ none →
    (f.index : Int) < h.session.baseIndex + h.session.buffer.capacity))

/-- The indices of what was delivered, all below `bound`. -/
structure Lists (first : UInt16) (payloads : List Bytes) (delivered : List Delivery) (bound : Int)
    (indices : List Nat) : Prop where
  increasing : indices.Pairwise (· < ·)
  below : ∀ i ∈ indices, (i : Int) < bound
  each : List.Forall₂ (fun i d => payloads[i]? = some d.data ∧ d.seq = first + UInt16.ofNat i)
    indices delivered

def InPlace (first : UInt16) (w : Window) (i : Nat) : Prop :=
  ∃ data a, w.cell ((first.toNat : Int) + i) = .filled data a

/-- Each of the packets is delivered, or in its place. -/
def Kept (first : UInt16) (s : Session) (kept : List Nat) : Prop :=
  ∃ indices, Lists first s.payloads s.delivered s.baseIndex indices ∧
    ∀ i ∈ kept, i ∈ indices ∨ ∃ w, Stands first s w ∧ InPlace first w i

theorem Lists.mono {payloads : List Bytes} {delivered : List Delivery} {bound bound' : Int}
    {indices : List Nat} (h : Lists first payloads delivered bound indices) (hle : bound ≤ bound') :
    Lists first payloads delivered bound' indices :=
  ⟨h.increasing, fun i hi => (h.below i hi).trans_le hle, h.each⟩

/-- The packet at the bound is delivered next. -/
theorem Lists.snoc {payloads : List Bytes} {delivered : List Delivery} {indices : List Nat} {i : Nat}
    {d : Delivery} (h : Lists first payloads delivered i indices)
    (hpay : payloads[i]? = some d.data) (hseq : d.seq = first + UInt16.ofNat i) :
    Lists first payloads (delivered ++ [d]) ((i : Int) + 1) (indices ++ [i]) := by
  refine ⟨?_, ?_, List.rel_append h.each (List.Forall₂.cons ⟨hpay, hseq⟩ List.Forall₂.nil)⟩
  · rw [List.pairwise_append]
    refine ⟨h.increasing, List.pairwise_singleton _ _, ?_⟩
    intro a ha b hb
    rw [List.mem_singleton.mp hb]
    have := h.below a ha
    omega
  · intro j hj
    rcases List.mem_append.mp hj with hj | hj
    · have := h.below j hj
      omega
    · rw [List.mem_singleton.mp hj]
      omega

theorem Kept.append (hk : Kept first s kept) (hbuf : s'.buffer = s.buffer)
    (hindex : s'.baseIndex = s.baseIndex) (hdel : s'.delivered = s.delivered) {more : List Bytes}
    (hpay : s'.payloads = s.payloads ++ more) : Kept first s' kept := by
  obtain ⟨indices, hlists, hall⟩ := hk
  refine ⟨indices, ⟨hlists.increasing, hindex ▸ hlists.below, ?_⟩, ?_⟩
  · rw [hpay, hdel]
    exact hlists.each.imp fun i d hd => ⟨getElem?_append_of_some hd.1 more, hd.2⟩
  · intro i hi
    refine (hall i hi).imp_right ?_
    rintro ⟨w, hw, hplace⟩
    exact ⟨w, stands_append hw hbuf hindex hdel hpay, hplace⟩

/-- The position of a packet that there is room for. -/
theorem Room.lt {w : Window} (hroom : Room h d) (hf : h.session.network[d.1]? = some f)
    (hw : Stands first h.session w) :
    (first.toNat : Int) + f.index < w.base + h.session.buffer.capacity := by
  have hlt := hroom f hf (by rw [hw.refines.base]; simp)
  have hbase := hw.base
  omega

theorem mem_inTime (hf : h.session.network[d.1]? = some f) {i : Nat} :
    i ∈ inTime h d ↔
      i = f.index ∧ (h.session.buffer.baseSeq = none ∨ h.session.baseIndex ≤ f.index) := by
  unfold inTime
  rw [hf]
  simp only
  split_ifs with htime
  · rw [List.mem_singleton]
    exact (and_iff_left htime).symm
  · exact iff_of_false List.not_mem_nil fun hi => htime hi.2

/-- The first packet is in time. -/
theorem Kept.hear_first (hk : Kept first h.session kept) (hw : Waits h.session)
    (hs : Sends ssrc first h.session) (hf : h.session.network[d.1]? = some f) :
    Kept first (hear now h d).session (kept ++ inTime h d) := by
  obtain ⟨payload, hw'⟩ := hear_waits hw hs hf now
  obtain ⟨indices, hlists, hall⟩ := hk
  -- nothing has been delivered, and nothing can be in place
  have hnil : indices = [] := by
    have heach := hlists.each
    rw [hw.delivered] at heach
    exact List.forall₂_nil_right_iff.mp heach
  have hsession := hear_fields now h d
  refine ⟨indices, ⟨hlists.increasing, ?_, ?_⟩, ?_⟩
  · rw [hnil]
    exact fun i hi => absurd hi List.not_mem_nil
  · rw [hsession]
    exact hlists.each
  · intro i hi
    rcases List.mem_append.mp hi with hi | hi
    · rcases hall i hi with hi | ⟨w, hstands, -⟩
      · exact Or.inl hi
      · exact absurd (hstands.refines.base.symm.trans hw.baseSeq) (by simp)
    · obtain ⟨rfl, -⟩ := (mem_inTime hf).mp hi
      exact Or.inr ⟨_, hw', payload, now, by simp [Window.anchor]⟩

/-- **A packet in time is put in its place, and the others stay in theirs.** -/
theorem Kept.hear (hk : Kept first h.session kept) (hp : Placed first h)
    (hs : Sends ssrc first h.session) (hf : h.session.network[d.1]? = some f)
    (hnear : Near now h d) (hroom : Room h d) :
    Kept first (hear now h d).session (kept ++ inTime h d) := by
  rcases hp with ⟨hw, -⟩ | ⟨w, hw, -, -⟩
  · exact hk.hear_first hw hs hf
  obtain ⟨indices, hlists, hall⟩ := hk
  obtain ⟨payload, -, hw'⟩ := hear_stands hw hs hf hnear
  have hbase := Window.insert_base_of_room hw.refines.wf (hroom.lt hf hw) payload now
  have hindex := hw.base
  have hindex' := hw'.base
  refine ⟨indices, ⟨hlists.increasing, ?_, ?_⟩, ?_⟩
  · intro i hi
    have := hlists.below i hi
    omega
  · rw [hear_fields]
    exact hlists.each
  · intro i hi
    rcases List.mem_append.mp hi with hi | hi
    · refine (hall i hi).imp_right ?_
      rintro ⟨w₀, hw₀, data, a, hcell₀⟩
      have hcell := (hw₀.refines.agree hw.refines (hw₀.base.trans hw.base.symm)).2 _ _ _ hcell₀
      have hlo := (hw.refines.wf.mem_of_filled (Cell.isFilled_iff.mpr ⟨data, a, hcell⟩)).1
      rcases Window.insert_keeps hw.refines.wf hcell ((first.toNat : Int) + f.index) payload now with
        hpast | hcell'
      · omega
      · exact ⟨_, hw', data, a, hcell'⟩
    · obtain ⟨rfl, htime⟩ := (mem_inTime hf).mp hi
      have hlo : h.session.baseIndex ≤ f.index :=
        htime.resolve_left (by rw [hw.refines.base]; simp)
      obtain ⟨data, a, hcell⟩ := Window.insert_puts hw.refines.wf
        (show w.base ≤ (first.toNat : Int) + f.index by omega) (hroom.lt hf hw) payload now
      exact Or.inr ⟨_, hw', data, a, hcell⟩

/-- What is not at the head stays when the head is taken. -/
theorem InPlace.slide {cap : Int} {w : Window} {i : Nat} (hplace : InPlace first w i)
    (hwf : w.WF cap) (hne : (first.toNat : Int) + i ≠ w.base) :
    InPlace first (w.slide (w.base + 1)) i := by
  obtain ⟨data, a, hcell⟩ := hplace
  have hlo := (hwf.mem_of_filled (Cell.isFilled_iff.mpr ⟨data, a, hcell⟩)).1
  refine ⟨data, a, ?_⟩
  simp only [Window.slide]
  rw [if_neg (by omega)]
  exact hcell

/-- **A turn of a drain takes a packet out only to deliver it.** -/
theorem Lists.drainStep {cap : Int} {w w' : Window} {payloads : List Bytes}
    {delivered : List Delivery} {indices : List Nat} (hwf : w.WF cap)
    (hcarries : Carries first payloads w)
    (hlists : Lists first payloads delivered (w.base - first.toNat) indices)
    (hall : ∀ i ∈ kept, i ∈ indices ∨ InPlace first w i) {hold : Duration} {item : DrainItem}
    (hs : w.drainStep hold now = some (w', item)) :
    ∃ indices', Lists first payloads (delivered ++ [item].filterMap DrainItem.delivery)
        (w'.base - first.toNat) indices' ∧
      ∀ i ∈ kept, i ∈ indices' ∨ InPlace first w' i := by
  obtain ⟨-, rfl, hitem⟩ := Window.drainStep_cases hs
  rcases hitem with ⟨data, arrival, hcell, -, rfl⟩ | ⟨rfl, hnot⟩
  · obtain ⟨j, hj, hpay⟩ := hcarries _ _ _ hcell
    have hbound : w.base - first.toNat = j := by omega
    have hnext : (w.slide (w.base + 1)).base - first.toNat = (j : Int) + 1 := by
      simp only [Window.slide]
      omega
    rw [hbound] at hlists
    refine ⟨indices ++ [j], hnext ▸ hlists.snoc (d := ⟨data, UInt16.ofInt w.base⟩) hpay ?_, ?_⟩
    · rw [hj, ofInt_first_add]
    · intro i hi
      rcases hall i hi with hi | hplace
      · exact Or.inl (List.mem_append_left _ hi)
      · by_cases hhead : (first.toNat : Int) + i = w.base
        · obtain rfl : i = j := by omega
          exact Or.inl (List.mem_append_right _ List.mem_cons_self)
        · exact Or.inr (hplace.slide hwf hhead)
  · refine ⟨indices, ?_, ?_⟩
    · rw [show [DrainItem.lost].filterMap DrainItem.delivery = [] from rfl, List.append_nil]
      exact hlists.mono (by simp only [Window.slide]; omega)
    · intro i hi
      refine (hall i hi).imp_right fun hplace => hplace.slide hwf ?_
      -- a head that is lost holds no packet
      intro hhead
      obtain ⟨data, a, hcell⟩ := hplace
      rw [hhead] at hcell
      rw [hcell] at hnot
      exact absurd hnot (by simp [Cell.isFilled])

theorem Lists.drainLoop {w : Window} (hw : Stands first s w) {indices : List Nat}
    (hlists : Lists first s.payloads s.delivered s.baseIndex indices)
    (hall : ∀ i ∈ kept, i ∈ indices ∨ InPlace first w i) (hold : Duration) (now : Instant)
    (fuel : Nat) :
    ∃ indices', Lists first s.payloads
        (s.delivered ++ (w.drainLoop hold now fuel).2.filterMap DrainItem.delivery)
        ((w.drainLoop hold now fuel).1.base - first.toNat) indices' ∧
      ∀ i ∈ kept, i ∈ indices' ∨ InPlace first (w.drainLoop hold now fuel).1 i := by
  have hloop := Window.drainLoop_invariant hold now
    (I := fun w out => w.WF s.buffer.capacity ∧ Carries first s.payloads w ∧
      ∃ indices, Lists first s.payloads (s.delivered ++ out.filterMap DrainItem.delivery)
        (w.base - first.toNat) indices ∧ ∀ i ∈ kept, i ∈ indices ∨ InPlace first w i) ?_ fuel w []
    ⟨hw.refines.wf, hw.carries, indices, ?_, hall⟩
  · simpa using hloop.2.2
  · rintro w₁ out w₂ item ⟨hwf, hcarries, indices, hlists, hall⟩ hs
    obtain ⟨hslide, -, hwf₂⟩ := Window.drainStep_wf hwf hs
    refine ⟨hwf₂, ?_, ?_⟩
    · intro x data a hx
      rw [hslide] at hx
      simp only [Window.slide] at hx
      split_ifs at hx
      exact hcarries x data a hx
    · rw [List.filterMap_append, ← List.append_assoc]
      exact Lists.drainStep hwf hcarries hlists hall hs
  · have hbound : w.base - first.toNat = s.baseIndex := by
      rw [hw.base]
      omega
    simpa [hbound] using hlists

theorem Kept.drain (hk : Kept first s kept) (hr : Receives first s) (now : Instant) :
    Kept first (s.step (.drain now)) kept := by
  obtain ⟨indices, hlists, hall⟩ := hk
  rcases hr with hw | ⟨w, hw⟩
  · have hnone : s.buffer.drainStep now = none := by
      unfold ReorderBuffer.drainStep
      rw [hw.baseSeq]
    refine ⟨indices, ?_, ?_⟩
    · simp only [Session.step, ReorderBuffer.drainReady_of_none hnone]
      simpa [Recording.advance, hw.baseSeq] using hlists
    · intro i hi
      refine (hall i hi).imp_right ?_
      rintro ⟨w, hstands, -⟩
      exact absurd (hstands.refines.base.symm.trans hw.baseSeq) (by simp)
  · have hw' := drain_stands hw now
    have hplaced : ∀ i ∈ kept, i ∈ indices ∨ InPlace first w i := by
      intro i hi
      refine (hall i hi).imp_right ?_
      rintro ⟨w₀, hw₀, data, a, hcell⟩
      exact ⟨data, a, (hw₀.refines.agree hw.refines (hw₀.base.trans hw.base.symm)).2 _ _ _ hcell⟩
    obtain ⟨indices', hlists', hall'⟩ := Lists.drainLoop hw hlists hplaced s.buffer.bufferTime now
      s.buffer.drainFuel
    refine ⟨indices', ?_, fun i hi => (hall' i hi).imp_right fun hplace => ⟨_, hw', hplace⟩⟩
    rw [hw'.base, ← (ReorderBuffer.drainReady_refines hw.refines now).2] at hlists'
    rw [show (first.toNat : Int) + (s.step (.drain now)).baseIndex - first.toNat
      = (s.step (.drain now)).baseIndex by omega] at hlists'
    exact hlists'

/-- The buffer's hold time, and a time by which everything in it had come. -/
structure Stock (first : UInt16) (hold : Duration) (t : Instant) (s : Session) : Prop where
  hold_eq : s.buffer.bufferTime = hold
  stamped : Waits s ∨ ∃ w, Stands first s w ∧ w.Stamped t

variable {hold : Duration} {t : Instant}

theorem Stock.append (hs : Stock first hold t s) (hbuf : s'.buffer = s.buffer)
    (hindex : s'.baseIndex = s.baseIndex) (hdel : s'.delivered = s.delivered) {more : List Bytes}
    (hpay : s'.payloads = s.payloads ++ more) : Stock first hold t s' := by
  refine ⟨hbuf ▸ hs.hold_eq, hs.stamped.imp ?_ ?_⟩
  · exact fun hw => ⟨hbuf ▸ hw.bits, hbuf ▸ hw.baseSeq, hbuf ▸ hw.empty, hdel ▸ hw.delivered⟩
  · rintro ⟨w, hw, hstamped⟩
    exact ⟨w, stands_append hw hbuf hindex hdel hpay, hstamped⟩

theorem Stock.hear (hstock : Stock first hold t h.session) (hs : Sends ssrc first h.session)
    (hf : h.session.network[d.1]? = some f) (hnear : Near now h d) (hnow : now ≤ t) :
    Stock first hold t (hear now h d).session := by
  obtain ⟨p, -, hparse, -⟩ := (hs.network f (List.mem_of_getElem? hf)).parse d.2
  refine ⟨?_, Or.inr ?_⟩
  · rw [Hears.hear_buffer hf hparse, (ReorderBuffer.insert_shape p.seq p.payload now).2]
    exact hstock.hold_eq
  · rcases hstock.stamped with hw | ⟨w, hw, hstamped⟩
    · obtain ⟨payload, hw'⟩ := hear_waits hw hs hf now
      exact ⟨_, hw', Window.stamped_anchor hnow _ payload⟩
    · obtain ⟨payload, -, hw'⟩ := hear_stands hw hs hf hnear
      exact ⟨_, hw', hstamped.insert hw.refines.wf hnow _ payload⟩

theorem Stock.drain (hstock : Stock first hold t s) (now : Instant) :
    Stock first hold t (s.step (.drain now)) := by
  rcases hstock with ⟨hhold, hw | ⟨w, hw, hstamped⟩⟩
  · have hnone : s.buffer.drainStep now = none := by
      unfold ReorderBuffer.drainStep
      rw [hw.baseSeq]
    refine ⟨?_, Or.inl (drain_waits hw now)⟩
    simp only [Session.step, ReorderBuffer.drainReady_of_none hnone]
    exact hhold
  · obtain ⟨-, -, -, htime⟩ := ReorderBuffer.drainLoop_refines now s.buffer.drainFuel hw.refines
    exact ⟨htime.trans hhold, Or.inr ⟨_, drain_stands hw now, hstamped.drainLoop _ _⟩⟩

/-- **A late drain delivers all that is kept.** -/
theorem Stock.delivers (hstock : Stock first hold t s) (hr : Receives first s)
    (hlate : t + hold ≤ now) (hk : Kept first s kept) :
    let s' := s.step (.drain now)
    ∃ indices, Lists first s'.payloads s'.delivered s'.baseIndex indices ∧
      ∀ i ∈ kept, i ∈ indices := by
  intro s'
  obtain ⟨indices, hlists, hall⟩ := hk.drain hr now
  have hstock' := hstock.drain now
  refine ⟨indices, hlists, fun i hi => (hall i hi).resolve_right ?_⟩
  rintro ⟨w, hw, data, a, hcell⟩
  rcases hstock'.stamped with hwait | ⟨w', hw', hstamped⟩
  · exact absurd (hw.refines.base.symm.trans hwait.baseSeq) (by simp)
  · -- the window is empty, and the packet is not
    have hdone : w'.drainStep hold now = none := by
      have hnone : s'.buffer.drainStep now = none := ReorderBuffer.drainReady_done s.buffer now
      rcases ReorderBuffer.drainStep_refines hw'.refines now with ⟨-, hdone⟩ | ⟨b, w₁, item, hsome, -⟩
      · rw [hstock'.hold_eq] at hdone
        exact hdone
      · exact absurd (hnone.symm.trans hsome) (by simp)
    have hempty := Window.high_lt_base_of_late hw'.refines.wf hstamped hlate hdone
    have hsame := hw.refines.agree hw'.refines (hw.base.trans hw'.base.symm)
    obtain ⟨hlo, hhi⟩ := hw'.refines.wf.mem_of_filled
      (Cell.isFilled_iff.mpr ⟨data, a, hsame.2 _ _ _ hcell⟩)
    omega

end Heard

/-! ### The link -/

/-- Packets are read by `t`. -/
def LinkOp.By (t : Instant) : LinkOp → Prop
  | .rtp _ _ now => now ≤ t
  | _ => True

/-- A step that the buffer has no part in. -/
def LinkOp.Quiet : LinkOp → Prop
  | .rtp _ _ _ => False
  | .drain _ => False
  | _ => True

namespace Link

/-- Every packet of a burst finds room. -/
def Roomy (l : Link) : LinkOp → Prop
  | .rtp ds _ now => Run.Along (Heard.hear now) Heard.Room l.heard ((l.onWire ds).take maxBatch)
  | _ => True

instance (l : Link) : (op : LinkOp) → Decidable (l.Roomy op)
  | .rtp ds _ now => inferInstanceAs
    (Decidable (Run.Along (Heard.hear now) Heard.Room l.heard ((l.onWire ds).take maxBatch)))
  | .media _ _ | .senderReport _ _ | .toSender _ _ _ | .toReceiver _ _ _ | .pump _
  | .receiverReport _ | .drain _ => inferInstanceAs (Decidable True)

/-- The packets of a burst that are read in time. -/
def inTime (l : Link) : LinkOp → List Nat
  | .rtp ds _ now =>
    Run.emitted (Heard.hear now) Heard.inTime l.heard ((l.onWire ds).take maxBatch)
  | _ => []

variable {p : Peers} {ssrc : UInt32} {first : UInt16} {l : Link} {kept : List Nat}
  {hold : Duration} {t : Instant}

theorem step_quiet (p : Peers) (l : Link) {op : LinkOp} (hop : op.Quiet) :
    (l.step p op).session.buffer = l.session.buffer ∧
      (l.step p op).session.baseIndex = l.session.baseIndex ∧
      (l.step p op).session.delivered = l.session.delivered := by
  cases op with
  | media payload now => exact ⟨rfl, rfl, rfl⟩
  | senderReport now wallClock => exact ⟨rfl, rfl, rfl⟩
  | toSender k recvAt clock =>
      simp only [Link.step]
      split
      · exact ⟨rfl, rfl, rfl⟩
      · split <;> exact ⟨rfl, rfl, rfl⟩
  | rtp ds arrivedAt now => exact hop.elim
  | toReceiver k now clock =>
      simp only [Link.step]
      split
      · exact ⟨rfl, rfl, rfl⟩
      · split
        · exact ⟨(rtcpArm_same p l.receiver _ now clock).1, rfl, rfl⟩
        · exact ⟨rfl, rfl, rfl⟩
  | pump now =>
      refine ⟨?_, rfl, rfl⟩
      show (l.receiver.pumpArm p.receiverSsrc now).1.media.reorder = l.receiver.media.reorder
      rw [ReceiverState.pumpArm_reorder]
  | receiverReport now =>
      refine ⟨?_, rfl, rfl⟩
      show (l.receiver.reportArm p.receiverSsrc p.receiverCname p.receiverEcho now).1.media.reorder
        = l.receiver.media.reorder
      rw [ReceiverState.reportArm_reorder]
  | drain now => exact hop.elim

theorem inTime_quiet (l : Link) {op : LinkOp} (hop : op.Quiet) : l.inTime op = [] := by
  cases op with
  | rtp ds arrivedAt now => exact hop.elim
  | drain now => exact hop.elim
  | _ => rfl

theorem kept_quiet (p : Peers) (hk : Heard.Kept first l.session kept) {op : LinkOp}
    (hop : op.Quiet) : Heard.Kept first (l.step p op).session (kept ++ l.inTime op) := by
  obtain ⟨hbuf, hindex, hdel⟩ := step_quiet p l hop
  rw [inTime_quiet l hop, List.append_nil]
  exact hk.append hbuf hindex hdel (step_payloads p l op)

theorem stock_quiet (p : Peers) (hs : Heard.Stock first hold t l.session) {op : LinkOp}
    (hop : op.Quiet) : Heard.Stock first hold t (l.step p op).session := by
  obtain ⟨hbuf, hindex, hdel⟩ := step_quiet p l hop
  exact hs.append hbuf hindex hdel (step_payloads p l op)

/-- A burst, as the media path has it. -/
theorem Linked.session_rtp (h : Linked p ssrc first l) {ds : List (Nat × UInt64)}
    {arrivedAt now : Instant} (hfair : l.Fair (.rtp ds arrivedAt now)) :
    (l.step p (.rtp ds arrivedAt now)).session = (l.heardAfter ds now).session := by
  rw [← h.heard_rtp hfair]
  rfl

theorem Linked.keeps (h : Linked p ssrc first l) (hk : Heard.Kept first l.session kept)
    {op : LinkOp} (hfair : l.Fair op) (hroom : l.Roomy op) :
    Heard.Kept first (l.step p op).session (kept ++ l.inTime op) := by
  cases op with
  | rtp ds arrivedAt now =>
      rw [h.session_rtp hfair]
      have hburst : _ ∧ Heard.Kept first _ (kept ++ l.inTime (.rtp ds arrivedAt now)) :=
        Run.emitted_invariant
          (I := fun h kept => (∃ m, Hears ssrc first h m) ∧ Heard.Kept first h.session kept)
          ?_ ⟨⟨_, h.hears⟩, hk⟩ (Run.along_and hfair hroom)
      · exact hburst.2
      · rintro h d kept ⟨⟨m, hh⟩, hk⟩ ⟨hnear, hroom⟩
        cases hf : h.session.network[d.1]? with
        | none =>
            rw [Heard.hear_of_none now hf, Heard.inTime, hf, List.append_nil]
            exact ⟨⟨m, hh⟩, hk⟩
        | some f =>
            obtain ⟨q, -, hparse, -⟩ := (hh.sends.network f (List.mem_of_getElem? hf)).parse d.2
            exact ⟨⟨_, hh.packet hf hparse hnear⟩, hk.hear hh.placed hh.sends hf hnear hroom⟩
  | drain now =>
      show Heard.Kept first (l.session.step (.drain now)) (kept ++ [])
      rw [List.append_nil]
      exact hk.drain h.hears.placed.receives now
  | media payload now => exact kept_quiet p hk trivial
  | senderReport now wallClock => exact kept_quiet p hk trivial
  | toSender k recvAt clock => exact kept_quiet p hk trivial
  | toReceiver k now clock => exact kept_quiet p hk trivial
  | pump now => exact kept_quiet p hk trivial
  | receiverReport now => exact kept_quiet p hk trivial

theorem Linked.stock (h : Linked p ssrc first l) (hs : Heard.Stock first hold t l.session)
    {op : LinkOp} (hfair : l.Fair op) (hby : op.By t) :
    Heard.Stock first hold t (l.step p op).session := by
  cases op with
  | rtp ds arrivedAt now =>
      rw [h.session_rtp hfair]
      have hany : Run.Along (Heard.hear now) (fun _ _ => True) l.heard ((l.onWire ds).take maxBatch) :=
        Run.along_iff.mpr fun _ _ _ _ => trivial
      exact h.hears.burst_invariant (fun h => Heard.Stock first hold t h.session)
        (fun _ _ _ _ hh hf hd hs => hs.hear hh.sends hf hd.1 hby) _
        (fun d hd => mem_onWire (List.mem_of_mem_take hd)) (Run.along_and hfair hany) hs
  | drain now => exact hs.drain now
  | media payload now => exact stock_quiet p hs trivial
  | senderReport now wallClock => exact stock_quiet p hs trivial
  | toSender k recvAt clock => exact stock_quiet p hs trivial
  | toReceiver k now clock => exact stock_quiet p hs trivial
  | pump now => exact stock_quiet p hs trivial
  | receiverReport now => exact stock_quiet p hs trivial

/-! ### The result -/

theorem eq_range_of_increasing {indices : List Nat} {n : Nat} (hlt : indices.Pairwise (· < ·))
    (hbelow : ∀ i ∈ indices, i < n) (hall : ∀ i < n, i ∈ indices) : indices = List.range n := by
  have hperm : indices.Perm (List.range n) :=
    (List.perm_ext_iff_of_nodup (hlt.imp Nat.ne_of_lt) List.nodup_range).mpr fun i =>
      ⟨fun hi => List.mem_range.mpr (hbelow i hi), fun hi => hall i (List.mem_range.mp hi)⟩
  exact hperm.eq_of_pairwise (fun a b _ _ hab hba => absurd hab (Nat.lt_asymm hba)) hlt
    List.pairwise_lt_range

/-- Nothing is left out, so everything is there. -/
theorem data_of_lists {payloads : List Bytes} {delivered : List Delivery} {bound : Int}
    {indices : List Nat} (h : Heard.Lists first payloads delivered bound indices)
    (hall : ∀ i < payloads.length, i ∈ indices) : delivered.map Delivery.data = payloads := by
  have hmap : indices.map (payloads[·]?) = delivered.map fun d => some d.data := by
    rw [← List.forall₂_eq_eq_eq, List.forall₂_map_left_iff, List.forall₂_map_right_iff]
    exact h.each.imp fun i d hd => hd.1
  have hbelow : ∀ i ∈ indices, i < payloads.length := by
    intro i hi
    have hmem : payloads[i]? ∈ delivered.map fun d => some d.data :=
      hmap ▸ List.mem_map_of_mem hi
    obtain ⟨d, -, hd⟩ := List.mem_map.mp hmem
    exact (List.getElem?_eq_some_iff.mp hd.symm).1
  have hpayloads : (List.range payloads.length).map (payloads[·]?) = payloads.map some :=
    List.ext_getElem (by simp) (by simp)
  rw [eq_range_of_increasing h.increasing hbelow hall, hpayloads] at hmap
  refine List.map_injective_iff.mpr (Option.some_injective Bytes) ?_
  rw [List.map_map, hmap]
  rfl

/-- **What arrives in time is delivered.**  Payloads fit a datagram, and packets come within
half of the number circle; otherwise the network does what it likes.  A packet that is read
while the base has not passed it is among those that a drain delivers which comes a hold time
after the last packet was read; and if every packet was read in time, what was delivered is
what was sent. -/
theorem in_time_is_delivered (p : Peers) (ssrc : UInt32) (seq : UInt16) (capacity : Nat)
    (rtcpInterval : Duration) (tsEpoch : Instant) (tsEpochSystem : SystemTime)
    (bufferSize : Duration) (maxNackRetries : UInt32) (now : Instant) (ops : List LinkOp)
    (t late : Instant) :
    let s := start p ssrc seq capacity rtcpInterval tsEpoch tsEpochSystem bufferSize maxNackRetries
      now
    let read := Run.emitted (Link.step p) inTime s ops
    let l := (Run.final (Link.step p) s ops).step p (.drain late)
    Run.Along (Link.step p) Fair s ops → Run.Along (Link.step p) Roomy s ops →
    (∀ op ∈ ops, op.By t) → t + bufferSize ≤ late →
    (∃ indices : List Nat, indices.Pairwise (· < ·) ∧
      List.Forall₂ (fun i d => l.payloads[i]? = some d.data ∧ d.seq = seq + UInt16.ofNat i) indices
        l.delivered ∧ ∀ i ∈ read, i ∈ indices) ∧
    ((∀ i < l.payloads.length, i ∈ read) → l.delivered.map Delivery.data = l.payloads) := by
  intro s read l hfair hroom hby hlate
  have hs : Linked p (ssrc &&& ~~~1) seq s := start_linked p ssrc seq capacity rtcpInterval tsEpoch
    tsEpochSystem bufferSize maxNackRetries now
  have hwaits : Session.Waits s.session := by
    obtain ⟨h1, h2, h3, -⟩ := Recording.start_fresh bufferSize
      (show ReorderBuffer.defaultCapacity ≤ 16384 by decide)
    exact ⟨h1, h2, h3, rfl⟩
  have htimes : Run.Along (Link.step p) (fun _ op => op.By t) s ops :=
    Run.along_iff.mpr fun before op after heq => hby op (heq ▸ by simp)
  obtain ⟨hl, hstock⟩ := Run.invariant
    (I := fun l => Linked p (ssrc &&& ~~~1) seq l ∧ Heard.Stock seq bufferSize t l.session)
    (fun _ _ h ho => ⟨h.1.step ho.1, h.1.stock h.2 ho.1 ho.2⟩) ⟨hs, rfl, Or.inl hwaits⟩
    (Run.along_and hfair htimes)
  have hkept : _ ∧ Heard.Kept seq _ ([] ++ read) := Run.emitted_invariant
    (I := fun l kept => Linked p (ssrc &&& ~~~1) seq l ∧ Heard.Kept seq l.session kept)
    (fun _ _ _ h ho => ⟨h.1.step ho.1, h.1.keeps h.2 ho.1 ho.2⟩)
    ⟨hs, [], ⟨List.Pairwise.nil, by simp, List.Forall₂.nil⟩, by simp⟩ (Run.along_and hfair hroom)
  obtain ⟨indices, hlists, hall⟩ := hstock.delivers hl.hears.placed.receives hlate hkept.2
  exact ⟨⟨indices, hlists.increasing, hlists.each, hall⟩, fun hevery =>
    data_of_lists hlists fun i hi => hall i (hevery i hi)⟩

/-- The second packet comes last, and in time. -/
theorem in_time_is_delivered_overtaken :
    let ops := overtaken ++ [.rtp [(1, 0)] 0 0]
    let l := (Run.final (Link.step lan) fresh ops).step lan (.drain 50000000)
    Run.emitted (Link.step lan) inTime fresh ops = [0, 2, 1] ∧ l.payloads = [[1], [2], [3]] ∧
      l.delivered.map Delivery.data = l.payloads := by
  intro ops l
  have hread : Run.emitted (Link.step lan) inTime fresh ops = [0, 2, 1] := by decide +kernel
  have hsent : l.payloads = [[1], [2], [3]] := by decide +kernel
  refine ⟨hread, hsent, (in_time_is_delivered lan 8 65535 16 100000000 0 0 50000000 10 0 ops 0
    50000000 (overtaken_fair _ (by decide) (by decide)) (by decide +kernel) ?_ (by decide)).2 ?_⟩
  · simp [ops, overtaken, LinkOp.By]
  · show ∀ i < l.payloads.length, i ∈ Run.emitted (Link.step lan) inTime fresh ops
    rw [hread, hsent]
    decide

end Link

end Rist
