/-
A burst of the sender's own datagrams.

The receive task reads a burst from the socket, parses it, and runs the packets through
the buffer and the trackers.  For datagrams of the link that is the same as hearing them
one after the other (`Hears.rtpArm`): they all come from the address of the first, they
are short enough to be read whole, and every one of them parses.
-/
import Rist.Proofs.Link.Heard
import Rist.Proofs.Peer.Receiver
import Rist.Proofs.Receiver.Pacing

namespace Rist

open Session

/-! ### Reading a burst -/

namespace ReceiverState

theorem drainBurst_of_parses {src : SocketAddr} : ∀ {n : Nat} {batch : List ParsedRtp}
    {queued : List Datagram}, batch.length + n = maxBatch → (∀ d ∈ queued, d.src = src) →
    (∀ d ∈ queued, d.parse ≠ none) →
    drainBurst src n batch queued = batch ++ (queued.take n).filterMap Datagram.parse := by
  intro n
  induction n with
  | zero =>
      intro batch queued _ _ _
      cases queued <;> simp [drainBurst]
  | succ n ih =>
      intro batch queued hlen hsrc hparse
      cases queued with
      | nil => simp [drainBurst]
      | cons d queued =>
          obtain ⟨p, hp⟩ := Option.ne_none_iff_exists'.mp (hparse d List.mem_cons_self)
          have hone : (batch ++ [p]).length + n = maxBatch := by
            rw [List.length_append, List.length_singleton]
            omega
          have hrest := ih hone (fun d hd => hsrc d (List.mem_cons_of_mem _ hd))
            (fun d hd => hparse d (List.mem_cons_of_mem _ hd))
          rw [drainBurst, if_pos (by omega), if_neg (not_not.mpr (hsrc d List.mem_cons_self)), hp]
          simp only
          rw [hrest, List.take_succ_cons, List.filterMap_cons_some hp, List.append_assoc]
          rfl

/-- A burst that parses is read up to the batch size. -/
theorem burst_of_parses {first : Datagram} {queued : List Datagram}
    (hsrc : ∀ d ∈ queued, d.src = first.src) (hparse : ∀ d ∈ first :: queued, d.parse ≠ none) :
    burst first queued = ((first :: queued).take maxBatch).filterMap Datagram.parse := by
  obtain ⟨p, hp⟩ := Option.ne_none_iff_exists'.mp (hparse first List.mem_cons_self)
  unfold burst
  rw [hp, Option.toList_some, drainBurst_of_parses rfl hsrc fun d hd =>
    hparse d (List.mem_cons_of_mem _ hd)]
  rw [show maxBatch = (maxBatch - 1) + 1 from rfl, List.take_succ_cons, List.filterMap_cons_some hp]
  rfl

end ReceiverState

/-! ### Hearing a burst -/

/-- The media of a link, as the trackers of the receive task have it. -/
structure Hears (ssrc : UInt32) (first : UInt16) (h : Heard) (m : MediaPath) : Prop where
  sends : Sends ssrc first h.session
  placed : h.Placed first
  buffer : h.session.buffer = m.reorder
  asks : NackScheduler.Asks first h.received m.nack
  sent : ∀ i ∈ h.received, i < h.session.payloads.length
  begun : h.received ≠ [] → m.rtcp.firstPacketReceived = true

namespace Hears

variable {ssrc : UInt32} {first : UInt16} {h : Heard} {m : MediaPath} {now : Instant}
  {d : Nat × UInt64} {f : Flight}

theorem hear_buffer {p : ParsedRtp} (hf : h.session.network[d.1]? = some f)
    (hparse : parseRtp f.bytes d.2 = some p) :
    (Heard.hear now h d).session.buffer = (h.session.buffer.insert p.seq p.payload now).1 := by
  simp only [Heard.hear, Session.step, hf, hparse]

/-- The first packet of a stream is never a duplicate. -/
theorem firstPacketReceived_packet {p : ParsedRtp}
    (hm : m.rtcp.firstPacketReceived = true ∨ m.reorder.baseSeq = none) :
    (m.packet p now).rtcp.firstPacketReceived = true := by
  show (m.rtcp.onPacketReceived p.seq p.rtpTs p.arrivalUs
    (m.reorder.insert p.seq p.payload now).2.duplicate).firstPacketReceived = true
  cases hdup : (m.reorder.insert p.seq p.payload now).2.duplicate with
  | false =>
      exact (RtcpReceiverState.onPacketReceived_maxSeq (s := m.rtcp) p.seq p.rtpTs p.arrivalUs).1
  | true =>
      rcases hm with hm | hm
      · exact hm
      · rw [ReorderBuffer.insert_of_none (Or.inl hm)] at hdup
        exact absurd hdup (by simp)

theorem packet (hh : Hears ssrc first h m) (hf : h.session.network[d.1]? = some f)
    {p : ParsedRtp} (hparse : parseRtp f.bytes d.2 = some p) (hnear : Heard.Near now h d) :
    Hears ssrc first (Heard.hear now h d) (m.packet p now) := by
  obtain ⟨p', payload, hparse', hpay, hseq, hdata⟩ :=
    (hh.sends.network f (List.mem_of_getElem? hf)).parse d.2
  obtain rfl := Option.some.inj (hparse.symm.trans hparse')
  have hreceived := Heard.hear_received now hf
  refine ⟨hh.sends.step (.deliver d.1 d.2 now), hh.placed.hear hh.sends hf hnear, ?_, ?_, ?_, fun _ => ?_⟩
  · rw [hear_buffer hf hparse, hh.buffer]
    rfl
  · rw [hreceived]
    have hasks := hh.asks.onPacketReceived (i := f.index) (fun hne => hnear.2 f hf hne) now
    rw [← hseq] at hasks
    exact hasks
  · rw [hreceived, Heard.hear_payloads]
    intro i hi
    rcases List.mem_append.mp hi with hi | hi
    · exact hh.sent i hi
    · rw [List.mem_singleton.mp hi]
      exact (List.getElem?_eq_some_iff.mp hpay).1
  · refine firstPacketReceived_packet ?_
    rcases hh.placed with ⟨hw, -⟩ | ⟨w, -, hne, -⟩
    · exact Or.inr (hh.buffer ▸ hw.baseSeq)
    · exact Or.inl (hh.begun hne)

/-- The packet of a datagram on the wire. -/
def parsed (network : List Flight) (d : Nat × UInt64) : Option ParsedRtp :=
  (network[d.1]?).bind fun f => parseRtp f.bytes d.2

theorem hear_network (now : Instant) (h : Heard) (d : Nat × UInt64) :
    (Heard.hear now h d).session.network = h.session.network := by
  rw [Heard.hear_fields]

/-- The next datagram of a burst. -/
theorem next (hh : Hears ssrc first h m) (hd : d.1 < h.session.network.length)
    (hnear : Heard.Near now h d) :
    ∃ f p, h.session.network[d.1]? = some f ∧ parsed h.session.network d = some p ∧
      Hears ssrc first (Heard.hear now h d) (m.packet p now) := by
  have hf : h.session.network[d.1]? = some (h.session.network.get ⟨d.1, hd⟩) :=
    List.getElem?_eq_getElem hd
  obtain ⟨p, -, hparse, -⟩ := (hh.sends.network _ (List.mem_of_getElem? hf)).parse d.2
  refine ⟨_, p, hf, ?_, hh.packet hf hparse hnear⟩
  unfold parsed
  rw [hf]
  exact hparse

/-- **Datagram by datagram and all at once.** -/
theorem batch (ds : List (Nat × UInt64)) : ∀ {h : Heard} {m : MediaPath}, Hears ssrc first h m →
    (∀ d ∈ ds, d.1 < h.session.network.length) →
    Run.Along (Heard.hear now) (Heard.Near now) h ds →
    Hears ssrc first (Run.final (Heard.hear now) h ds)
      (m.processBatch (ds.filterMap (parsed h.session.network)) now) := by
  induction ds with
  | nil =>
      intro h m hh _ _
      exact hh
  | cons d ds ih =>
      intro h m hh hwire hnear
      obtain ⟨-, p, -, hp, hstep⟩ := hh.next (hwire d List.mem_cons_self) hnear.1
      have hrest := ih hstep
        (fun e he => by rw [hear_network]; exact hwire e (List.mem_cons_of_mem _ he)) hnear.2
      rw [hear_network] at hrest
      rw [List.filterMap_cons_some hp, Run.final_cons]
      rw [MediaPath.processBatch_eq_foldl] at hrest ⊢
      exact hrest

/-- **The invariant rule for bursts** whose datagrams are near, and meet `P` besides. -/
theorem burst_invariant (hh : Hears ssrc first h m) (I : Heard → Prop)
    {P : Heard → Nat × UInt64 → Prop}
    (hstep : ∀ h m d f, Hears ssrc first h m → h.session.network[d.1]? = some f →
      Heard.Near now h d ∧ P h d → I h → I (Heard.hear now h d)) (ds : List (Nat × UInt64))
    (hwire : ∀ d ∈ ds, d.1 < h.session.network.length)
    (hds : Run.Along (Heard.hear now) (fun h d => Heard.Near now h d ∧ P h d) h ds) (hI : I h) :
    I (Run.final (Heard.hear now) h ds) := by
  induction ds generalizing h m with
  | nil => exact hI
  | cons d ds ih =>
      obtain ⟨f, p, hf, -, hnext⟩ := hh.next (hwire d List.mem_cons_self) hds.1.1
      refine ih hnext ?_ hds.2 (hstep h m d f hh hf hds.1 hI)
      intro e he
      rw [hear_network]
      exact hwire e (List.mem_cons_of_mem _ he)

end Hears

end Rist
