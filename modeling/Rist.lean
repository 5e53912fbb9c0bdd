import Rist.Proofs.Reorder.History
import Rist.Proofs.Reorder.Overflow
import Rist.Proofs.Reorder.Deadline
import Rist.Proofs.Nack.Count
import Rist.Proofs.Nack.Slots
import Rist.Lib.Log
import Rist.Proofs.Nack.History
import Rist.Packet.RtcpReport
import Rist.Packet.Rtp
import Rist.Packet.Rtcp
import Rist.Protocol.Rtt
import Rist.Transport.Guard
import Rist.Protocol.RtcpState
import Rist.Transport.Receiver
import Rist.Proofs.Receiver.Trackers
import Rist.Lib.HoldDown
import Rist.Transport.Sender
import Rist.Proofs.Peer.Receiver
import Rist.Proofs.Peer.HoldDown
import Rist.Proofs.Sender.Retransmit
import Rist.Proofs.Packet.Media
import Rist.Proofs.Session
import Rist.Lib.Frames
import Rist.Proofs.Packet.Safe
import Rist.Proofs.Packet.Compound
import Rist.Proofs.Packet.Utf8
import Rist.Proofs.Packet.RoundTrip
import Rist.Proofs.Packet.Reencode
import Rist.Proofs.Packet.Request
import Rist.Lib.Bitmap
import Rist.Proofs.Sender.Honest
import Rist.Protocol.Bonding
import Rist.Proofs.Bonding
import Rist.Proofs.Reorder.Accounting
import Rist.Proofs.Reorder.Hostile
import Rist.Proofs.Nack.Pacing
import Rist.Proofs.Timers
import Rist.Proofs.Receiver.Pacing
import Rist.Proofs.Receiver.Reports
import Rist.Packet.Seq
import Rist.Proofs.Packet.Seq
import Rist.Proofs.Sender.Ring
import Rist.Proofs.Receiver.Extended
import Rist.Proofs.Sender.Timestamps
import Rist.Proofs.Counters
import Rist.Proofs.Rtt
import Rist.Proofs.Receiver.Oversize
import Rist.Proofs.Receiver.Inbound
import Rist.Proofs.Reorder.Capacity
import Rist.Lib.Monitor
import Rist.Transport.DrainThread
import Rist.Proofs.Delivery.Wakeup
import Rist.Proofs.Delivery.LockOrder
import Rist.Proofs.Delivery.Books
import Rist.Proofs.Packet.Truncation
import Rist.Proofs.Link.Loop
import Rist.Proofs.Link.Heard
import Rist.Proofs.Link.Burst
import Rist.Proofs.Link.Control
import Rist.Proofs.Link.Closed
import Rist.Proofs.Link.Counting
import Rist.Proofs.Link.Reports
import Rist.Proofs.Link.InTime
import Rist.Transport.SendTask
import Rist.Proofs.Link.Missing
import Rist.Proofs.Link.Recovery
import Rist.Proofs.Peer.Reflection
