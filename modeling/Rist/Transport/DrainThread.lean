/-
The two threads of the receiver: the RTP arm of `receiver_loop` and `run_drain_thread`
in `rist-transport/src/receiver.rs`, with the channel to the application and the
counters of `rist-transport/src/stats.rs`.

The threads share the reorder buffer behind a mutex with a condition variable.  The
receive task inserts a burst under one lock, notifies, and then walks over the burst
once more for the trackers and the counters.  The delivery thread drains under the lock
and forwards outside it, item by item.  Everything between two accesses to shared state
is one operation, so a list of operations is an interleaving of the two threads, of
cancellation and of the application.

The counters are `u64`, naturals here.  `jitter_us`, `rtt_us` and `nacks_sent` and the
counters of the send task are left out: neither thread reads a counter back.
-/
import Rist.Lib.Monitor
import Rist.Transport.Delivery
import Rist.Transport.Receiver

namespace Rist

/-- The readings of the clock in a turn of the delivery thread. -/
structure TurnClock where
  now : Instant
  inner : Instant
  later : Instant

/-- How a turn of the loop ends, as the monitor has it.  A timed wait ends when the clock
has gone on by the timeout. -/
def DeliveryTurn.verdict (later : Instant) : DeliveryTurn → Monitor.Verdict DrainItem
  | forward items => .emit items
  | wait => .sleep none
  | waitTimeout timeout => .sleep (some (later + timeout))
  | again => .again

/-- The two critical sections of `DrainShared`. -/
def drainShared :
    Monitor.Program ReorderBuffer (List ParsedRtp × Instant) TurnClock DrainItem where
  write b burst := (MediaPath.insertAll b burst.2 burst.1).1
  turn b clock :=
    let (b, t) := deliveryTurn b clock.now clock.inner clock.later
    (b, t.verdict clock.later)

/-! ### Statistics -/

/-- The counters of `RistConnStats` the two threads raise. -/
structure RistConnStats where
  packetsReceived : Nat := 0
  bytesReceived : Nat := 0
  packetsLost : Nat := 0
  packetsRecovered : Nat := 0
  duplicates : Nat := 0
  reorderDrops : Nat := 0
  retransmitsReceived : Nat := 0
  deriving DecidableEq

/-- The counters one packet of a burst raises. -/
def RistConnStats.onPacket (s : RistConnStats) (p : ParsedRtp) (o : InsertOutcome) :
    RistConnStats where
  packetsReceived := s.packetsReceived + 1
  bytesReceived := s.bytesReceived + p.payloadLen
  retransmitsReceived := s.retransmitsReceived + (if p.isRetransmit then 1 else 0)
  duplicates := s.duplicates + (if o.duplicate then 1 else 0)
  packetsRecovered := s.packetsRecovered + (if o.recovered then 1 else 0)
  reorderDrops := s.reorderDrops + (if o.stale then 1 else 0)
  packetsLost := s.packetsLost + o.overflowFlushed

/-! ### The application channel -/

/-- A packet handed to the application. -/
structure RistDelivered where
  data : Bytes
  arrival : Instant
  rtpSeq : UInt16
  deriving DecidableEq

/-- `mpsc::channel(1024)`. -/
def deliveryQueue : Nat := 1024

/-- What is queued, and whether the application still holds its end. -/
structure DeliveryChannel where
  queue : List RistDelivered
  rxOpen : Bool
  deriving DecidableEq

/-- `try_send`: fails when the queue is full or the other end is gone. -/
def DeliveryChannel.trySend (c : DeliveryChannel) (x : RistDelivered) : Option DeliveryChannel :=
  if c.rxOpen = true ∧ c.queue.length < deliveryQueue then
    some { c with queue := c.queue ++ [x] }
  else none

/-! ### The two threads -/

structure ReceivePipe where
  /-- The reorder buffer behind its lock, and where the delivery thread is. -/
  shared : Monitor.State ReorderBuffer DrainItem
  rtcp : RtcpReceiverState
  nack : NackScheduler
  /-- The part of the last burst that is inserted and not yet counted. -/
  counting : List (ParsedRtp × InsertOutcome)
  /-- The clock of the last burst. -/
  burstAt : Instant
  stats : RistConnStats
  channel : DeliveryChannel
  /-- What the application has taken. -/
  got : List RistDelivered

inductive PipeOp where
  /-- The receive task inserts a burst under the lock. -/
  | burst (batch : List ParsedRtp) (now : Instant)
  | notify
  /-- The receive task counts the next packet of the burst. -/
  | count
  /-- The delivery thread takes the lock and looks at the cancellation token. -/
  | enter
  | turn (clock : TurnClock)
  /-- The delivery thread forwards its next item. -/
  | forward
  | timeout (now : Instant)
  | spurious
  | resume
  | cancel
  /-- The receive task has left its loop: `notify_all`, then the join. -/
  | shutdown
  /-- The application takes a packet. -/
  | recv
  /-- The application drops its end. -/
  | hangUp

namespace ReceivePipe

/-- The threads as `receiver_loop` starts them. -/
def new (bufferSize : Duration) (maxNackRetries : UInt32) (now : Instant) : ReceivePipe where
  shared := Monitor.State.start (ReorderBuffer.new bufferSize)
  rtcp := RtcpReceiverState.new
  nack := NackScheduler.new maxNackRetries minNackRetryDelay now
  counting := []
  burstAt := now
  stats := {}
  channel := ⟨[], true⟩
  got := []

/-- The receive task may start a burst: it is through with the last one. -/
def MayBurst (s : ReceivePipe) : Prop := s.shared.MayWrite ∧ s.counting.isEmpty = true

/-- The receive task may leave its loop. -/
def MayShutdown (s : ReceivePipe) : Prop := s.shared.MayTell ∧ s.counting.isEmpty = true

instance (s : ReceivePipe) : Decidable s.MayBurst := inferInstanceAs (Decidable (_ ∧ _))

instance (s : ReceivePipe) : Decidable s.MayShutdown := inferInstanceAs (Decidable (_ ∧ _))

/-- A step of the delivery thread or of the lock alone. -/
def sync (s : ReceivePipe) (op : Monitor.Op (List ParsedRtp × Instant) TurnClock) : ReceivePipe :=
  { s with shared := s.shared.step drainShared op }

/-- One item of the delivery thread's `scratch`. -/
def forward (s : ReceivePipe) : DrainItem → ReceivePipe
  | .delivered data seq arrival =>
    match s.channel.trySend ⟨data, arrival, seq⟩ with
    | some channel => { s with channel }
    | none => { s with stats.reorderDrops := s.stats.reorderDrops + 1 }
  | .lost => { s with stats.packetsLost := s.stats.packetsLost + 1 }

/-- One packet of the burst, after the insert. -/
def countPacket (s : ReceivePipe) (p : ParsedRtp) (o : InsertOutcome) : ReceivePipe :=
  { s with
    rtcp := s.rtcp.onPacketReceived p.seq p.rtpTs p.arrivalUs o.duplicate
    nack := (s.nack.onPacketReceived p.seq s.burstAt).1
    stats := s.stats.onPacket p o }

def step (s : ReceivePipe) : PipeOp → ReceivePipe
  | .burst batch now =>
    if s.MayBurst ∧ batch.isEmpty = false then
      { s.sync (.write (batch, now)) with
        counting := batch.zip (MediaPath.insertAll s.shared.value now batch).2
        burstAt := now }
    else s
  | .notify => s.sync .notify
  | .count =>
    -- the walk over the burst comes after the notification
    match s.shared.owes, s.counting with
    | false, (p, o) :: rest => { s.countPacket p o with counting := rest }
    | _, _ => s
  | .enter => s.sync .enter
  | .turn clock => s.sync (.turn clock)
  | .forward =>
    match s.shared.phase with
    | .emitting (item :: _) => (s.forward item).sync .hand
    | _ => s.sync .hand
  | .timeout now => s.sync (.timeout now)
  | .spurious => s.sync .spurious
  | .resume => s.sync .resume
  | .cancel => s.sync .stop
  | .shutdown => if s.MayShutdown then s.sync .tell else s
  | .recv =>
    match s.channel.rxOpen, s.channel.queue with
    | true, x :: queue => { s with channel.queue := queue, got := s.got ++ [x] }
    | _, _ => s
  | .hangUp => { s with channel.rxOpen := false }

end ReceivePipe

end Rist
