/-
Sender, network and receiver together.

A session is a sender, everything it ever put on the wire, and a receiver's buffer.
The network is the log of datagrams sent: one that is never delivered is lost, one
delivered twice is duplicated, and deliveries come in any order and as late as one
likes.  A datagram carries the index of the packet it is a copy of, which the code
does not see.

Everything is tied together on one integer line.  The packet of index `i` stands at
`start + i`, where `start` is the number the sender began with, and a datagram that
is not too far from the receiver's base is read back at that position.  So a filled
position of the window holds the packet that belongs there (`Carries`), whichever
copy of it filled it and however often the numbers have wrapped since.
-/
import Rist.Proofs.Packet.Media
import Rist.Proofs.Reorder.Run
import Rist.Proofs.Sender.Retransmit

namespace Rist

open Serial

/-- A datagram in the network, and the index of its packet. -/
structure Flight where
  index : Nat
  bytes : Bytes

/-- A payload handed to the receiving application, with its number. -/
structure Delivery where
  data : Bytes
  seq : UInt16
  deriving DecidableEq

/-- What the application gets of a drained item. -/
def DrainItem.delivery : DrainItem → Option Delivery
  | .delivered data seq _ => some ⟨data, seq⟩
  | .lost => none

structure Session where
  sender : SenderState
  /-- What the application has handed over, in order. -/
  payloads : List Bytes
  /-- The index of the packet last sent under a number. -/
  origin : UInt16 → Nat
  /-- Every datagram sent. -/
  network : List Flight
  buffer : ReorderBuffer
  /-- The index the receiver's base stands for. -/
  baseIndex : Int
  delivered : List Delivery

inductive SessionOp where
  | send (payload : Bytes) (rtpTimestamp : UInt32)
  /-- `serve_nack_entries`, for any request. -/
  | serve (budget : NackWorkBudget) (seqs : List UInt16)
  /-- The RTCP arm, for any datagram. -/
  | rtcp (src : SocketAddr) (bytes : Bytes) (recvAt : Instant) (clock : Nat → Instant)
  /-- The `k`th datagram sent arrives, now or again. -/
  | deliver (k : Nat) (arrivalUs : UInt64) (now : Instant)
  | drain (now : Instant)

namespace Session

/-- Put a datagram on the wire. -/
def flight (origin : UInt16 → Nat) (bytes : Bytes) : Flight :=
  match parseRtp bytes 0 with
  | some p => ⟨origin p.seq, bytes⟩
  | none => ⟨0, bytes⟩

def step (s : Session) : SessionOp → Session
  | .send payload rtpTimestamp =>
    let (sender, _, bytes) := s.sender.mediaArm payload rtpTimestamp
    let origin := Function.update s.origin s.sender.seq s.payloads.length
    { s with sender, origin, payloads := s.payloads ++ [payload]
             network := s.network ++ [flight origin bytes] }
  | .serve budget seqs =>
    let r := serveNackEntries s.sender.retransmitBuf s.sender.remoteRtpAddr budget seqs
    { s with network := s.network ++ r.sent.map fun d => flight s.origin d.2 }
  | .rtcp src bytes recvAt clock =>
    let (sender, work) := s.sender.rtcpArm src bytes recvAt clock
    { s with sender, network := s.network ++ work.retransmits.map fun d => flight s.origin d.2 }
  | .deliver k arrivalUs now =>
    match s.network[k]? with
    | none => s
    | some f =>
      match parseRtp f.bytes arrivalUs with
      | none => s
      | some p =>
        let buffer := (s.buffer.insert p.seq p.payload now).1
        let baseIndex := match s.buffer.baseSeq with
          | none => (f.index : Int)
          | some _ => s.baseIndex + Recording.advance s.buffer.baseSeq buffer.baseSeq
        { s with buffer, baseIndex }
  | .drain now =>
    let (buffer, items) := s.buffer.drainReady now
    { s with buffer, baseIndex := s.baseIndex + Recording.advance s.buffer.baseSeq buffer.baseSeq
             delivered := s.delivered ++ items.filterMap DrainItem.delivery }

/-- A new sender and a new receiver. -/
def start (ssrc : UInt32) (seq : UInt16) (capacity : Nat) (rtcpInterval : Duration)
    (remote : SocketAddr) (bufferTime : Duration) : Session where
  sender := SenderState.new ssrc seq capacity rtcpInterval remote
  payloads := []
  origin _ := 0
  network := []
  buffer := ReorderBuffer.new bufferTime
  baseIndex := 0
  delivered := []

/-- An arriving datagram's packet is less than half of the number circle from the
receiver's base. -/
def Near (s : Session) : SessionOp → Prop
  | .deliver k _ _ => ∀ f, s.network[k]? = some f → s.buffer.baseSeq ≠ none →
      -32767 ≤ (f.index : Int) - s.baseIndex ∧ (f.index : Int) - s.baseIndex ≤ 32767
  | _ => True

instance (s : Session) (op : SessionOp) : Decidable (s.Near op) :=
  match op with
  | .deliver k _ _ =>
    match h : s.network[k]? with
    | none => .isTrue fun _ hf => nomatch h.symm.trans hf
    | some f =>
      decidable_of_iff (s.buffer.baseSeq ≠ none →
          -32767 ≤ (f.index : Int) - s.baseIndex ∧ (f.index : Int) - s.baseIndex ≤ 32767)
        ⟨fun hn _ hf => Option.some.inj (h.symm.trans hf) ▸ hn, fun hn => hn f h⟩
  | .send _ _ | .serve _ _ | .rtcp _ _ _ _ | .drain _ => .isTrue trivial

/-! ### The wire -/

/-- The datagram is the packet of its index, fresh or retransmitted. -/
def IsCopy (ssrc : UInt32) (first : UInt16) (payloads : List Bytes) (f : Flight) : Prop :=
  ∃ payload timestamp, payloads[f.index]? = some payload ∧
    (f.bytes = wire ssrc (first + UInt16.ofNat f.index) timestamp payload ∨
      f.bytes = retxCopy (wire ssrc (first + UInt16.ofNat f.index) timestamp payload))

/-- The sender's side of a session that began at the number `first`. -/
structure Sends (ssrc : UInt32) (first : UInt16) (s : Session) : Prop where
  flow : s.sender.ssrc = ssrc
  next : s.sender.seq = first + UInt16.ofNat s.payloads.length
  /-- The ring holds, under a number, the packet last sent under it. -/
  ring : ∀ q data, s.sender.retransmitBuf.get q = some data →
    ∃ payload timestamp, s.payloads[s.origin q]? = some payload ∧
      q = first + UInt16.ofNat (s.origin q) ∧ data = wire ssrc q timestamp payload
  network : ∀ f ∈ s.network, IsCopy ssrc first s.payloads f

variable {ssrc : UInt32} {first : UInt16} {s : Session}

/-- A copy of either kind is read back. -/
theorem IsCopy.parse {payloads : List Bytes} {f : Flight} (h : IsCopy ssrc first payloads f)
    (arrivalUs : UInt64) :
    ∃ p payload, parseRtp f.bytes arrivalUs = some p ∧ payloads[f.index]? = some payload ∧
      p.seq = first + UInt16.ofNat f.index ∧ p.payload = payload := by
  obtain ⟨payload, timestamp, hpay, hbytes | hbytes⟩ := h
  · exact ⟨_, payload, by rw [hbytes, parseRtp_wire], hpay, rfl, rfl⟩
  · exact ⟨_, payload, by rw [hbytes, retxCopy_wire, parseRtp_wire], hpay, rfl, rfl⟩

theorem getElem?_append_of_some {l : List Bytes} {i : Nat} {x : Bytes} (h : l[i]? = some x)
    (more : List Bytes) : (l ++ more)[i]? = some x := by
  rw [List.getElem?_append_left (List.getElem?_eq_some_iff.mp h).1]
  exact h

theorem IsCopy.append {payloads : List Bytes} {f : Flight} (h : IsCopy ssrc first payloads f)
    (more : List Bytes) : IsCopy ssrc first (payloads ++ more) f := by
  obtain ⟨payload, timestamp, hpay, hbytes⟩ := h
  exact ⟨payload, timestamp, getElem?_append_of_some hpay more, hbytes⟩

/-- A copy is logged under the index of its packet. -/
theorem flight_copy {payloads : List Bytes} {origin : UInt16 → Nat} {q : UInt16} {bytes payload : Bytes}
    {timestamp : UInt32} (hpay : payloads[origin q]? = some payload)
    (hq : q = first + UInt16.ofNat (origin q))
    (hbytes : bytes = wire ssrc q timestamp payload ∨
      bytes = retxCopy (wire ssrc q timestamp payload)) :
    IsCopy ssrc first payloads (flight origin bytes) := by
  have hflight : flight origin bytes = ⟨origin q, bytes⟩ := by
    unfold flight
    rcases hbytes with hbytes | hbytes
    · rw [hbytes, parseRtp_wire]
    · rw [hbytes, retxCopy_wire, parseRtp_wire]
  rw [hflight]
  refine ⟨payload, timestamp, hpay, ?_⟩
  simp only
  rw [← hq]
  exact hbytes

theorem Sends.send (h : Sends ssrc first s) (payload : Bytes) (rtpTimestamp : UInt32) :
    Sends ssrc first (s.step (.send payload rtpTimestamp)) := by
  have hpay : (s.payloads ++ [payload])[s.payloads.length]? = some payload := by simp
  have hbytes : (s.sender.mediaArm payload rtpTimestamp).2.2
      = wire ssrc s.sender.seq rtpTimestamp payload := by
    rw [← h.flow]
    rfl
  have horigin : Function.update s.origin s.sender.seq s.payloads.length s.sender.seq
      = s.payloads.length := Function.update_self _ _ _
  refine ⟨h.flow, ?_, ?_, ?_⟩
  · show s.sender.seq + 1 = first + UInt16.ofNat (s.payloads ++ [payload]).length
    rw [h.next, List.length_append, List.length_singleton, UInt16.ofNat_add, UInt16.add_assoc]
    rfl
  · intro q data hget
    rcases RetransmitBuffer.get_insert hget with ⟨hq, hdata⟩ | ⟨hq, hold⟩
    · subst hq
      refine ⟨payload, rtpTimestamp, ?_, ?_, hdata.trans hbytes⟩
      · show (s.payloads ++ [payload])[Function.update s.origin s.sender.seq _ s.sender.seq]? = _
        rw [horigin]
        exact hpay
      · show s.sender.seq = first + UInt16.ofNat (Function.update s.origin s.sender.seq _ s.sender.seq)
        rw [horigin]
        exact h.next
    · obtain ⟨payload', timestamp, hpay', hq', hdata⟩ := h.ring q data hold
      have hsame : Function.update s.origin s.sender.seq s.payloads.length q = s.origin q :=
        Function.update_of_ne hq _ _
      refine ⟨payload', timestamp, ?_, ?_, hdata⟩
      · show (s.payloads ++ [payload])[Function.update s.origin s.sender.seq _ q]? = _
        rw [hsame]
        exact getElem?_append_of_some hpay' _
      · show q = first + UInt16.ofNat (Function.update s.origin s.sender.seq _ q)
        rw [hsame]
        exact hq'
  · intro f hf
    rcases List.mem_append.mp hf with hf | hf
    · exact (h.network f hf).append [payload]
    · rw [List.mem_singleton.mp hf]
      refine flight_copy (q := s.sender.seq) ?_ ?_ (Or.inl hbytes)
      · rw [horigin]
        exact hpay
      · rw [horigin]
        exact h.next

/-- Retransmitted copies keep the sender's side. -/
theorem Sends.resend (h : Sends ssrc first s) {sender : SenderState}
    (hring : sender.retransmitBuf = s.sender.retransmitBuf) (hssrc : sender.ssrc = s.sender.ssrc)
    (hseq : sender.seq = s.sender.seq) {sent : List (SocketAddr × Bytes)}
    (hsent : ∀ d ∈ sent, ∃ q data, s.sender.retransmitBuf.get q = some data ∧ d.2 = retxCopy data) :
    Sends ssrc first { s with sender
                              network := s.network ++ sent.map fun d => flight s.origin d.2 } := by
  refine ⟨hssrc.trans h.flow, hseq.trans h.next, ?_, ?_⟩
  · simp only [hring]
    exact h.ring
  · intro f hf
    rcases List.mem_append.mp hf with hf | hf
    · exact h.network f hf
    · obtain ⟨d, hd, rfl⟩ := List.mem_map.mp hf
      obtain ⟨q, data, hget, hcopy⟩ := hsent d hd
      obtain ⟨payload, timestamp, hpay, hq, hdata⟩ := h.ring q data hget
      exact flight_copy hpay hq (Or.inr (by rw [hcopy, hdata]))

theorem Sends.step (h : Sends ssrc first s) (op : SessionOp) : Sends ssrc first (s.step op) := by
  cases op with
  | send payload rtpTimestamp => exact h.send payload rtpTimestamp
  | serve budget seqs =>
      refine h.resend rfl rfl rfl ?_
      intro d hd
      obtain ⟨-, q, -, data, hget, hcopy⟩ := (serveNackEntries_accounts s.sender.retransmitBuf
        s.sender.remoteRtpAddr seqs budget).sent d hd
      exact ⟨q, data, hget, hcopy⟩
  | rtcp src bytes recvAt clock =>
      obtain ⟨hwork, hring, hssrc, hseq⟩ := rtcpArm_work s.sender src bytes recvAt clock
      refine h.resend hring hssrc hseq ?_
      intro d hd
      obtain ⟨-, q, data, hget, hcopy, -⟩ := hwork.authentic d hd
      exact ⟨q, data, hget, hcopy⟩
  | deliver k arrivalUs now =>
      simp only [Session.step]
      split
      · exact h
      · split
        · exact h
        · exact ⟨h.flow, h.next, h.ring, h.network⟩
  | drain now => exact ⟨h.flow, h.next, h.ring, h.network⟩

/-! ### The receiver -/

/-- Every packet held stands at its own position. -/
def Carries (first : UInt16) (payloads : List Bytes) (w : Window) : Prop :=
  ∀ x d a, w.cell x = .filled d a →
    ∃ i : Nat, x = (first.toNat : Int) + i ∧ payloads[i]? = some d

/-- What was delivered are the packets of increasing indices, all below `bound`. -/
def InOrder (first : UInt16) (payloads : List Bytes) (delivered : List Delivery) (bound : Int) :
    Prop :=
  ∃ indices : List Nat, indices.Pairwise (· < ·) ∧ (∀ i ∈ indices, (i : Int) < bound) ∧
    List.Forall₂ (fun i d => payloads[i]? = some d.data ∧ d.seq = first + UInt16.ofNat i) indices
      delivered

/-- The receiver's side, once a packet has arrived. -/
structure Stands (first : UInt16) (s : Session) (w : Window) : Prop where
  refines : ReorderBuffer.Refines s.buffer w
  base : w.base = (first.toNat : Int) + s.baseIndex
  carries : Carries first s.payloads w
  inOrder : InOrder first s.payloads s.delivered s.baseIndex

/-- The receiver's side before that. -/
structure Waits (s : Session) : Prop where
  bits : s.buffer.slots.bits ≤ 14
  baseSeq : s.buffer.baseSeq = none
  empty : ∀ q, (s.buffer.slot q).state = .empty
  delivered : s.delivered = []

variable {w : Window} {payloads : List Bytes}

theorem Carries.append (h : Carries first payloads w) (more : List Bytes) :
    Carries first (payloads ++ more) w := by
  intro x d a hx
  obtain ⟨i, hi, hpay⟩ := h x d a hx
  exact ⟨i, hi, getElem?_append_of_some hpay more⟩

theorem InOrder.append {delivered : List Delivery} {bound : Int}
    (h : InOrder first payloads delivered bound) (more : List Bytes) :
    InOrder first (payloads ++ more) delivered bound := by
  obtain ⟨indices, hlt, hbound, hall⟩ := h
  refine ⟨indices, hlt, hbound, hall.imp ?_⟩
  intro i d hd
  exact ⟨getElem?_append_of_some hd.1 more, hd.2⟩

theorem InOrder.mono {delivered : List Delivery} {bound bound' : Int}
    (h : InOrder first payloads delivered bound) (hle : bound ≤ bound') :
    InOrder first payloads delivered bound' := by
  obtain ⟨indices, hlt, hbound, hall⟩ := h
  exact ⟨indices, hlt, fun i hi => (hbound i hi).trans_le hle, hall⟩

/-- The packet at the bound is delivered next. -/
theorem InOrder.snoc {delivered : List Delivery} {i : Nat} {d : Delivery}
    (h : InOrder first payloads delivered i) (hpay : payloads[i]? = some d.data)
    (hseq : d.seq = first + UInt16.ofNat i) :
    InOrder first payloads (delivered ++ [d]) ((i : Int) + 1) := by
  obtain ⟨indices, hlt, hbound, hall⟩ := h
  refine ⟨indices ++ [i], ?_, ?_, ?_⟩
  · rw [List.pairwise_append]
    refine ⟨hlt, List.pairwise_singleton _ _, ?_⟩
    intro a ha b hb
    rw [List.mem_singleton.mp hb]
    have := hbound a ha
    omega
  · intro j hj
    rcases List.mem_append.mp hj with hj | hj
    · have := hbound j hj
      omega
    · rw [List.mem_singleton.mp hj]
      omega
  · exact List.rel_append hall (List.Forall₂.cons ⟨hpay, hseq⟩ List.Forall₂.nil)

theorem ofInt_first_add (first : UInt16) (i : Nat) :
    UInt16.ofInt ((first.toNat : Int) + i) = first + UInt16.ofNat i := by
  rw [eq_iff_toNat, toNat_ofInt, toNat_add, UInt16.toNat_ofNat']
  omega

/-- A whole drain. -/
theorem Stands.drainLoop (h : Stands first s w) (hold : Duration) (now : Instant) (fuel : Nat) :
    Carries first s.payloads (w.drainLoop hold now fuel).1 ∧
    InOrder first s.payloads
      (s.delivered ++ (w.drainLoop hold now fuel).2.filterMap DrainItem.delivery)
      ((w.drainLoop hold now fuel).1.base - first.toNat) := by
  have hloop := Window.drainLoop_invariant hold now
    (I := fun w out => Carries first s.payloads w ∧ InOrder first s.payloads
      (s.delivered ++ out.filterMap DrainItem.delivery) (w.base - first.toNat)) ?_ fuel w []
    ⟨h.carries, ?_⟩
  · simpa using hloop
  · intro w₁ out w₂ item ⟨hcarries, horder⟩ hs
    obtain ⟨-, rfl, hitem⟩ := Window.drainStep_cases hs
    refine ⟨?_, ?_⟩
    · intro x d a hx
      simp only [Window.slide] at hx
      split_ifs at hx
      exact hcarries x d a hx
    · rw [List.filterMap_append, ← List.append_assoc]
      rcases hitem with ⟨data, arrival, hcell, -, rfl⟩ | ⟨rfl, -⟩
      · -- the head holds the packet of its own index
        obtain ⟨i, hi, hpay⟩ := hcarries _ _ _ hcell
        have hbase : w₁.base - first.toNat = i := by omega
        have hnext : (w₁.slide (w₁.base + 1)).base - first.toNat = (i : Int) + 1 := by
          simp only [Window.slide]
          omega
        rw [hnext]
        rw [hbase] at horder
        refine horder.snoc (d := ⟨data, UInt16.ofInt w₁.base⟩) hpay ?_
        rw [hi, ofInt_first_add]
      · have hnext : w₁.base - first.toNat ≤ (w₁.slide (w₁.base + 1)).base - first.toNat := by
          simp only [Window.slide]
          omega
        rw [show [DrainItem.lost].filterMap DrainItem.delivery = [] from rfl, List.append_nil]
        exact horder.mono hnext
  · have hbase : w.base - first.toNat = s.baseIndex := by
      rw [h.base]
      omega
    simpa [hbase] using h.inOrder

/-- The receiver's side of a session. -/
def Receives (first : UInt16) (s : Session) : Prop := Waits s ∨ ∃ w, Stands first s w

theorem Stands.deliver (h : Stands first s w) {f : Flight}
    (hnear : -32767 ≤ (f.index : Int) - s.baseIndex ∧ (f.index : Int) - s.baseIndex ≤ 32767)
    {p : ParsedRtp} {payload : Bytes} (hpay : s.payloads[f.index]? = some payload)
    (hseq : p.seq = first + UInt16.ofNat f.index) (hdata : p.payload = payload) (now : Instant) :
    ∃ w', Stands first
      { s with buffer := (s.buffer.insert p.seq p.payload now).1
               baseIndex := s.baseIndex + Recording.advance s.buffer.baseSeq
                 (s.buffer.insert p.seq p.payload now).1.baseSeq } w' := by
  have hbase := h.base
  have hpos : near w.base p.seq = (first.toNat : Int) + f.index := by
    rw [hseq, ← ofInt_first_add]
    exact near_ofInt (by omega) (by omega)
  obtain ⟨href, -⟩ := ReorderBuffer.insert_refines h.refines p.seq p.payload now
  obtain ⟨hmono, hle⟩ := Window.insert_base h.refines.wf (near w.base p.seq) p.payload now
  have hadvance : Recording.advance s.buffer.baseSeq
      (s.buffer.insert p.seq p.payload now).1.baseSeq
      = (w.insert s.buffer.capacity (near w.base p.seq) p.payload now).1.base - w.base := by
    rw [h.refines.base, href.base]
    exact Recording.advance_of_le hmono (by omega)
  refine ⟨_, href, ?_, ?_, h.inOrder.mono ?_⟩
  · simp only [hadvance]
    omega
  · intro x d a hx
    rcases Window.insert_filled h.refines.wf hx with hold | ⟨hx, hd, -⟩
    · exact h.carries x d a hold
    · exact ⟨f.index, hx.trans hpos, by rw [hd, hdata]; exact hpay⟩
  · simp only [hadvance]
    omega

theorem Waits.deliver (h : Waits s) {f : Flight} {p : ParsedRtp} {payload : Bytes}
    (hpay : s.payloads[f.index]? = some payload) (hseq : p.seq = first + UInt16.ofNat f.index)
    (hdata : p.payload = payload) (now : Instant) :
    ∃ w, Stands first
      { s with buffer := (s.buffer.insert p.seq p.payload now).1, baseIndex := f.index } w := by
  have hins := ReorderBuffer.insert_of_none (Or.inl h.baseSeq) p.seq p.payload now
  have href := ReorderBuffer.anchor_refines h.bits (fun q => h.empty _)
    ((first.toNat : Int) + f.index) p.payload now
  rw [ofInt_first_add, ← hseq] at href
  rw [hins]
  refine ⟨_, href, rfl, ?_, [], List.Pairwise.nil, by simp, ?_⟩
  · intro x d a hx
    simp only [Window.anchor] at hx
    split_ifs at hx with hp
    exact ⟨f.index, hp, by rw [← (Cell.filled.inj hx).1, hdata]; exact hpay⟩
  · rw [h.delivered]
    exact List.Forall₂.nil

theorem Receives.deliver (h : Receives first s) (hs : Sends ssrc first s) {k : Nat}
    {arrivalUs : UInt64} {now : Instant} (hnear : s.Near (.deliver k arrivalUs now)) :
    Receives first (s.step (.deliver k arrivalUs now)) := by
  simp only [Session.step]
  cases hk : s.network[k]? with
  | none => exact h
  | some f =>
      have hcopy := hs.network f (List.mem_of_getElem? hk)
      obtain ⟨p, payload, hparse, hpay, hseq, hdata⟩ := hcopy.parse arrivalUs
      simp only [hparse]
      rcases h with h | ⟨w, h⟩
      · rw [h.baseSeq]
        exact Or.inr (h.deliver hpay hseq hdata now)
      · have hb := h.refines.base
        have hclose := hnear f hk (by rw [hb]; simp)
        have hnext := h.deliver hclose hpay hseq hdata now
        rw [hb] at hnext ⊢
        exact Or.inr hnext

theorem Receives.drain (h : Receives first s) (now : Instant) :
    Receives first (s.step (.drain now)) := by
  rcases h with h | ⟨w, h⟩
  · have hnone : s.buffer.drainStep now = none := by
      unfold ReorderBuffer.drainStep
      rw [h.baseSeq]
    refine Or.inl ?_
    simp only [Session.step, ReorderBuffer.drainReady_of_none hnone]
    exact ⟨h.bits, h.baseSeq, h.empty, by simp [h.delivered]⟩
  · obtain ⟨href, hitems⟩ := ReorderBuffer.drainReady_refines h.refines now
    obtain ⟨hbase, hhigh, hwf⟩ := Window.drainLoop_base s.buffer.bufferTime now h.refines.wf
      s.buffer.drainFuel
    obtain ⟨hcarries, horder⟩ := h.drainLoop s.buffer.bufferTime now s.buffer.drainFuel
    have hcap := ReorderBuffer.capacity_le h.refines.bits
    have hlt := h.refines.wf.high_lt
    have hle := hwf.base_le
    have hstart := h.base
    have hadvance : Recording.advance s.buffer.baseSeq (s.buffer.drainReady now).1.baseSeq
        = (w.drainLoop s.buffer.bufferTime now s.buffer.drainFuel).1.base - w.base := by
      rw [h.refines.base, href.base]
      exact Recording.advance_of_le (by omega) (by omega)
    have hindex : s.baseIndex
        + Recording.advance s.buffer.baseSeq (s.buffer.drainReady now).1.baseSeq
        = (w.drainLoop s.buffer.bufferTime now s.buffer.drainFuel).1.base - first.toNat := by
      rw [hadvance]
      omega
    refine Or.inr ⟨_, href, ?_, hcarries, ?_⟩
    · simp only [Session.step, hindex]
      omega
    · simp only [Session.step, hindex, hitems]
      exact horder

/-! ### Runs -/

/-- What a session keeps. -/
structure Faithful (ssrc : UInt32) (first : UInt16) (s : Session) : Prop where
  sends : Sends ssrc first s
  receives : Receives first s

theorem Receives.append {first : UInt16} {s s' : Session} (h : Receives first s)
    (hbuf : s'.buffer = s.buffer) (hindex : s'.baseIndex = s.baseIndex)
    (hdel : s'.delivered = s.delivered) {more : List Bytes}
    (hpay : s'.payloads = s.payloads ++ more) : Receives first s' := by
  rcases h with h | ⟨w, h⟩
  · exact Or.inl ⟨by rw [hbuf]; exact h.bits, by rw [hbuf]; exact h.baseSeq,
      by rw [hbuf]; exact h.empty, by rw [hdel]; exact h.delivered⟩
  · refine Or.inr ⟨w, by rw [hbuf]; exact h.refines, by rw [hindex]; exact h.base, ?_, ?_⟩
    · rw [hpay]
      exact h.carries.append more
    · rw [hpay, hdel, hindex]
      exact h.inOrder.append more

theorem Faithful.step (h : Faithful ssrc first s) {op : SessionOp} (hnear : s.Near op) :
    Faithful ssrc first (s.step op) := by
  refine ⟨h.sends.step op, ?_⟩
  cases op with
  | send payload rtpTimestamp => exact h.receives.append rfl rfl rfl rfl
  | serve budget seqs => exact h.receives.append rfl rfl rfl (List.append_nil _).symm
  | rtcp src bytes recvAt clock => exact h.receives.append rfl rfl rfl (List.append_nil _).symm
  | deliver k arrivalUs now => exact h.receives.deliver h.sends hnear
  | drain now => exact h.receives.drain now

theorem start_faithful (ssrc : UInt32) (seq : UInt16) (capacity : Nat) (rtcpInterval : Duration)
    (remote : SocketAddr) (bufferTime : Duration) :
    Faithful (ssrc &&& ~~~1) seq (start ssrc seq capacity rtcpInterval remote bufferTime) := by
  obtain ⟨h1, h2, h3, -⟩ := Recording.start_fresh bufferTime
    (show ReorderBuffer.defaultCapacity ≤ 16384 by decide)
  refine ⟨⟨rfl, ?_, ?_, by simp [start]⟩, Or.inl ⟨h1, h2, h3, rfl⟩⟩
  · show seq = seq + 0
    simp
  · intro q data hget
    have hnone : (SenderState.new ssrc seq capacity rtcpInterval remote).retransmitBuf.get q
        = none := by
      unfold RetransmitBuffer.get SenderState.new RetransmitBuffer.new
      rw [SlotRing.get_replicate]
    exact absurd (hnone.symm.trans hget) (by simp)

/-- **What is delivered is what was sent, in the order it was sent.**  However the
network treats the datagrams and whatever is asked for again, the payloads delivered
are those of strictly increasing indices.  Every datagram on the wire is a copy of the
packet of its index and is read back as its payload; a retransmission changes the low
bit of the SSRC only. -/
theorem delivered_in_order (ssrc : UInt32) (seq : UInt16) (capacity : Nat)
    (rtcpInterval : Duration) (remote : SocketAddr) (bufferTime : Duration) (ops : List SessionOp)
    (hnear : Run.Along step Near
      (start ssrc seq capacity rtcpInterval remote bufferTime) ops) :
    let s := Run.final step (start ssrc seq capacity rtcpInterval remote bufferTime) ops
    (∃ indices : List Nat, indices.Pairwise (· < ·) ∧
      List.Forall₂ (fun i d => s.payloads[i]? = some d.data ∧ d.seq = seq + UInt16.ofNat i) indices
        s.delivered) ∧
    ∀ f ∈ s.network, IsCopy (ssrc &&& ~~~1) seq s.payloads f ∧
      ∀ arrivalUs, (parseRtp f.bytes arrivalUs).map ParsedRtp.payload = s.payloads[f.index]? := by
  intro s
  have h : Faithful (ssrc &&& ~~~1) seq s :=
    Run.invariant (fun _ _ h hn => h.step hn)
      (start_faithful ssrc seq capacity rtcpInterval remote bufferTime) hnear
  refine ⟨?_, ?_⟩
  · rcases h.receives with hw | ⟨w, hw⟩
    · exact ⟨[], List.Pairwise.nil, by rw [hw.delivered]; exact List.Forall₂.nil⟩
    · obtain ⟨indices, hlt, -, hall⟩ := hw.inOrder
      exact ⟨indices, hlt, hall⟩
  · intro f hf
    refine ⟨h.sends.network f hf, fun arrivalUs => ?_⟩
    obtain ⟨p, payload, hparse, hpay, -, hdata⟩ := (h.sends.network f hf).parse arrivalUs
    rw [hparse, hpay, ← hdata]
    rfl

/-- Two packets across the wrap, the second lost, asked for again and recovered. -/
theorem delivered_in_order_wrap :
    (Run.final step (start 8 65535 64 100 (.v4 1 5000) 5)
      [.send [1] 0, .send [2] 0, .deliver 0 0 0, .serve ⟨4, 4⟩ [0], .deliver 2 0 1,
        .drain 10]).delivered = [⟨[1], 65535⟩, ⟨[2], 0⟩] ∧
    ∃ indices : List Nat, indices.Pairwise (· < ·) ∧
      List.Forall₂ (fun i (d : Delivery) => [[1], [2]][i]? = some d.data ∧
        d.seq = 65535 + UInt16.ofNat i) indices [⟨[1], 65535⟩, ⟨[2], 0⟩] := by
  have hrun := (delivered_in_order 8 65535 64 100 (.v4 1 5000) 5
    [.send [1] 0, .send [2] 0, .deliver 0 0 0, .serve ⟨4, 4⟩ [0], .deliver 2 0 1, .drain 10]
    (by decide +kernel)).1
  have hpay : (Run.final step (start 8 65535 64 100 (.v4 1 5000) 5)
      [.send [1] 0, .send [2] 0, .deliver 0 0 0, .serve ⟨4, 4⟩ [0], .deliver 2 0 1,
        .drain 10]).payloads = [[1], [2]] := by decide +kernel
  have hdel : (Run.final step (start 8 65535 64 100 (.v4 1 5000) 5)
      [.send [1] 0, .send [2] 0, .deliver 0 0 0, .serve ⟨4, 4⟩ [0], .deliver 2 0 1,
        .drain 10]).delivered = [⟨[1], 65535⟩, ⟨[2], 0⟩] := by
    decide +kernel
  rw [hpay, hdel] at hrun
  exact ⟨hdel, hrun⟩

end Session

end Rist
