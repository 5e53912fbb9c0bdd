/-
The delivery thread: `run_drain_thread` in `rist-transport/src/receiver.rs`.

One turn of its loop, with the clock readings it makes as arguments.  Cancellation
and the application channel are not modelled: the thread hands every drained item
to the channel, or counts it as lost, outside the lock.
-/
import Rist.Protocol.Reorder

namespace Rist

/-- What a turn of the delivery thread ends with. -/
inductive DeliveryTurn where
  /-- Forward the drained items and loop. -/
  | forward (items : List DrainItem)
  /-- `signal.wait`: sleep until an insert notifies. -/
  | wait
  /-- `signal.wait_timeout`: the same, for at most so long. -/
  | waitTimeout (timeout : Duration)
  /-- Loop at once. -/
  | again
  deriving DecidableEq

/-- A turn of the loop.  `now` is read before the drain, `inner` inside
`next_drain_time`, `later` before the wait. -/
def deliveryTurn (b : ReorderBuffer) (now inner later : Instant) :
    ReorderBuffer × DeliveryTurn :=
  let (b, scratch) := b.drainReady now
  if scratch = [] then
    match b.nextDrainTime inner with
    | none => (b, .wait)
    | some deadline =>
      if later < deadline then (b, .waitTimeout (deadline - later)) else (b, .again)
  else (b, .forward scratch)

/-- The two parties that hold the lock: the receive task inserts, the delivery
thread takes a turn. -/
inductive DeliveryOp where
  | insert (seq : UInt16) (data : Bytes) (now : Instant)
  | turn (now inner later : Instant)

def deliveryStep (b : ReorderBuffer) : DeliveryOp → ReorderBuffer
  | .insert seq data now => (b.insert seq data now).1
  | .turn now inner later => (deliveryTurn b now inner later).1

end Rist
