/-
Admission: `rist-transport/src/guard.rs`, and `rtcp_addr_for` of `channel.rs`.

A peer slot that was live within the grace time does not move to another IP.  The
port does not count, so a socket address is compared in two ways: by its IP for
admission, as a whole for latching.
-/
import Rist.Basic
import Rist.Lib.Checked

namespace Rist

/-! ### Addresses -/

/-- `std::net::IpAddr`. -/
inductive IpAddr where
  | v4 (octets : BitVec 32)
  | v6 (segments : BitVec 128)
  deriving DecidableEq

/-- `std::net::SocketAddr`. -/
inductive SocketAddr where
  | v4 (ip : BitVec 32) (port : UInt16)
  | v6 (ip : BitVec 128) (port : UInt16) (flowinfo scopeId : UInt32)
  deriving DecidableEq

namespace SocketAddr

def ip : SocketAddr → IpAddr
  | v4 ip _ => .v4 ip
  | v6 ip _ _ _ => .v6 ip

def port : SocketAddr → UInt16
  | v4 _ port => port
  | v6 _ port _ _ => port

/-- `SocketAddr::new`: flow info and scope are zero. -/
def new : IpAddr → UInt16 → SocketAddr
  | .v4 ip, port => v4 ip port
  | .v6 ip, port => v6 ip port 0 0

@[simp] theorem ip_new (a : IpAddr) (port : UInt16) : (new a port).ip = a := by
  cases a <;> rfl

end SocketAddr

/-- `rtcp_addr_for`: the port after the RTP port.  A release build wraps at 65535. -/
def rtcpAddrFor (rtpAddr : SocketAddr) : SocketAddr :=
  SocketAddr.new rtpAddr.ip (rtpAddr.port + 1)

@[simp] theorem rtcpAddrFor_ip (a : SocketAddr) : (rtcpAddrFor a).ip = a.ip :=
  SocketAddr.ip_new a.ip _

/-- `rtcp_addr_for` in a debug build, which stops at port 65535. -/
def rtcpAddrForChecked (rtpAddr : SocketAddr) : Option SocketAddr := do
  let port ← Checked.add16 rtpAddr.port 1
  some (SocketAddr.new rtpAddr.ip port)

/-! ### Hold-down -/

/-- `PEER_TAKEOVER_GRACE`. -/
def peerTakeoverGrace : Duration := Duration.fromSecs 12

def peerIsProtected (lastLive : Option Instant) (now : Instant) : Bool :=
  match lastLive with
  | none => false
  | some t => decide (now - t < peerTakeoverGrace)

def peerMoveAllowed (src current : SocketAddr) (lastLive : Option Instant) (now : Instant) :
    Bool :=
  decide (src.ip = current.ip) || !peerIsProtected lastLive now

def sourceAllowed (src : SocketAddr) (pinnedIp : Option IpAddr) (current : Option SocketAddr)
    (lastLive : Option Instant) (now : Instant) : Bool :=
  if pinnedIp.any fun ip => decide (src.ip ≠ ip) then false
  else
    match current with
    | none => true
    | some cur => peerMoveAllowed src cur lastLive now

/-! ### Retransmission work -/

/-- Does a request naming `mediaSsrc` ask for our media? -/
def nackTargetsUs (mediaSsrc ourSsrc : UInt32) : Bool :=
  decide (mediaSsrc = 0) || decide (mediaSsrc &&& ~~~1 = ourSsrc &&& ~~~1)

/-- The work one datagram may cause. -/
structure NackWorkBudget where
  scan : UInt32
  retx : UInt32
  deriving DecidableEq

namespace NackWorkBudget

/-- `MIN_RETX`. -/
def minRetx : UInt32 := 512

/-- `MAX_RETX`. -/
def maxRetx : UInt32 := 8192

/-- `u32::saturating_mul(4)`. -/
def saturatingMul4 (x : UInt32) : UInt32 := UInt32.ofNat (min (x.toNat * 4) 4294967295)

def forCapacity (capacity : Nat) : NackWorkBudget :=
  let retx := max minRetx (min (UInt32.ofNat (min capacity 4294967295)) maxRetx)
  ⟨saturatingMul4 retx, retx⟩

/-- Charge a lookup; `none` when the budget is spent. -/
def chargeScan (b : NackWorkBudget) : Option NackWorkBudget :=
  if b.scan = 0 then none else some { b with scan := b.scan - 1 }

/-- Charge a retransmission; `none` when the budget is spent. -/
def chargeRetx (b : NackWorkBudget) : Option NackWorkBudget :=
  if b.retx = 0 then none else some { b with retx := b.retx - 1 }

end NackWorkBudget

end Rist
