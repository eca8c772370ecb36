import Srtrust.Connection.Config
import Srtrust.Buffers.Send
import Srtrust.Buffers.Recv
import Srtrust.Timing
import Srtrust.Fec

/-! # The connection's state (`connection.rs`)

The fields of the source's `Connection`, grouped by the half that owns them: the link
(handshake and teardown), the keys, the sender and the receiver. The source keeps one flat
record; the grouping only says which handlers may touch what, so that a handler of one
half leaves the other halves alone by definition.

One field has no counterpart in the source: `trace` records the connection's history (the
packets it originated, the packets it took out of its receive buffer, the calls of the
session ciphers and failed `expect`s). Nothing reads it. -/
namespace Srtrust
open BigEndian
set_option autoImplicit false

/-! ## Reassembly -/

/-- `Reassembler`: the fragments of the message in progress and the sequence number its
next fragment must have. -/
structure Reassembler where
  fragments : List Bytes
  nextSeq : Option SeqNumber
deriving DecidableEq, Repr

namespace Reassembler

def empty : Reassembler := ⟨[], none⟩

/-- `push`: feeds one delivered packet; a packet that completes a message returns it. -/
def push (r : Reassembler) (packet : DataPacket) : Option Bytes × Reassembler :=
  match packet.position with
  | .single => (some packet.payload, empty)
  | .first => (none, ⟨[packet.payload], some packet.seq.next⟩)
  | .middle =>
    if r.nextSeq ≠ some packet.seq then (none, empty) -- a gap or an orphan voids the partial
    else (none, ⟨r.fragments ++ [packet.payload], some packet.seq.next⟩)
  | .last =>
    if r.nextSeq ≠ some packet.seq then (none, empty)
    else (some (r.fragments ++ [packet.payload]).flatten, empty)

end Reassembler

/-- `Fragment`: one data packet's worth of an application message. -/
structure Fragment where
  payload : Bytes
  position : PacketPosition
  message : UInt32
deriving DecidableEq, Repr

/-! ## The halves -/

inductive Side
  | caller
  | acceptor
deriving DecidableEq, Repr

inductive State
  | induction
  | conclusion
  | connected
  | failed
deriving DecidableEq, Repr

/-- Handshake and teardown. -/
structure Link where
  state : State
  peerSocketId : SocketId
  synCookie : UInt32
  lastHandshake : Option Bytes
  closing : Bool
  /-- The negotiated latency. -/
  latency : Duration
deriving DecidableEq

/-- Session keys and their rotation. -/
structure Keys where
  crypto : Option SessionCrypto
  keyMaterial : Option Bytes
  packetsOnKey : ℕ
  rekeyPending : Bool
  nextKeyReady : Bool
  pendingKm : Option Bytes
  kmRetries : ℕ
deriving DecidableEq

/-- The counters of `Stats` that the sending half increments. -/
structure SenderStats where
  packetsSent : ℕ
  bytesSent : ℕ
  packetsRetransmitted : ℕ
  bytesRetransmitted : ℕ
  packetsDroppedSent : ℕ
  acksReceived : ℕ
  naksReceived : ℕ
deriving DecidableEq, Repr

structure Sender where
  sendBuffer : SendBuffer
  nextSendSeq : SeqNumber
  nextMessage : UInt32
  peerAvailWindow : ℕ
  expCount : ℕ
  liveCc : Option LiveCc
  sendQueue : List Fragment
  nextSend : Option Instant
  fecSend : Option FecEncoder
  stats : SenderStats

/-- The counters of `Stats` that the receiving half increments. -/
structure ReceiverStats where
  packetsReceived : ℕ
  bytesReceived : ℕ
  packetsDropped : ℕ
  packetsDuplicate : ℕ
  packetsUndecryptable : ℕ
  packetsRecovered : ℕ
  packetsDroppedFull : ℕ
  acksSent : ℕ
  naksSent : ℕ
deriving DecidableEq, Repr

structure Receiver where
  recvBuffer : RecvBuffer
  tsbpdBase : Option (Timestamp × Instant)
  tsWrap : Option TsbpdWrap
  drift : DriftTracer
  nextAckNumber : UInt32
  pendingAcks : List (UInt32 × Instant)
  lastAckedPoint : Option SeqNumber
  lastAckedAvail : Option ℕ
  reportedLoss : List (SeqNumber × SeqNumber)
  reorderTolerance : ℕ
  highestRecvSeq : Option SeqNumber
  orderlyStreak : ℕ
  lastNak : Option Instant
  packetsSinceAck : ℕ
  reassembler : Reassembler
  fecRecv : Option FecReceiver
  rate : RateEstimator
  stats : ReceiverStats

/-- One call of a session cipher: the keys, the sequence number and the data. -/
structure CipherCall where
  keys : SessionKeys
  seq : SeqNumber
  aad : Bytes
  input : Bytes
  output : Bytes
deriving DecidableEq

inductive Trace
  | originated (packet : DataPacket)
  | popped (packet : DataPacket)
  | encrypted (call : CipherCall)
  | decrypted (call : CipherCall)
  | panicked
deriving DecidableEq

structure Connection where
  config : Config
  localSocketId : SocketId
  initialSeq : SeqNumber
  start : Instant
  side : Side
  link : Link
  keys : Keys
  tx : Sender
  rx : Receiver
  rtt : RttEstimator
  lastSent : Instant
  lastRecvAny : Instant
  events : List Event
  outputs : List Output
  trace : List Trace

namespace Connection

/-! ## Queues and clocks -/

/-- Queues an output. -/
def output (c : Connection) (o : Output) : Connection := { c with outputs := c.outputs ++ [o] }

/-- Queues an event. -/
def event (c : Connection) (e : Event) : Connection := { c with events := c.events ++ [e] }

/-- Appends to the history. -/
def record (c : Connection) (entries : List Trace) : Connection :=
  { c with trace := c.trace ++ entries }

/-- Records a failed `expect`. What an unwound call leaves behind is never used again, so the
rest of the state stays as it is. -/
def panicked (c : Connection) : Connection := c.record [.panicked]

/-- `wire_ts`: microseconds since `start`, wrapping. -/
def wireTs (c : Connection) (now : Instant) : Timestamp :=
  ⟨UInt32.ofNat (Duration.asMicros (now.saturatingDurationSince c.start))⟩

/-- `emit`: queues a datagram and records the send time. -/
def emit (c : Connection) (datagram : Bytes) (now : Instant) : Connection :=
  { c with lastSent := now, outputs := c.outputs ++ [.sendDatagram datagram] }

end Connection

/-- `encode_control`. -/
def encodeControl (dest : SocketId) (timestamp : Timestamp) (body : ControlBody) : Option Bytes :=
  (Packet.control { timestamp, destSocketId := dest, body }).encode

namespace Connection

/-- Encodes a control body for the peer and emits it. -/
def emitControl (c : Connection) (body : ControlBody) (now : Instant) : Connection :=
  match encodeControl c.link.peerSocketId (c.wireTs now) body with
  | some datagram => c.emit datagram now
  | none => c.panicked

end Connection

/-- The sending half of a new connection. -/
def Sender.new (config : Config) (initialSeq : SeqNumber) : Sender where
  sendBuffer := SendBuffer.new
  nextSendSeq := initialSeq
  nextMessage := 1
  peerAvailWindow := config.flowWindow.toNat
  expCount := 1
  liveCc := if 0 < config.maxBw then some (LiveCc.new config.maxBw) else none
  sendQueue := []
  nextSend := none
  fecSend := config.fec.map fun f => FecEncoder.new f.groupSize (max (config.mtu.toNat - 44) 1)
  stats := ⟨0, 0, 0, 0, 0, 0, 0⟩

/-- The receiving half of a new connection. -/
def Receiver.new (config : Config) (initialSeq : SeqNumber) : Receiver where
  recvBuffer := RecvBuffer.new initialSeq
  tsbpdBase := none
  tsWrap := none
  drift := DriftTracer.new
  nextAckNumber := 1
  pendingAcks := []
  lastAckedPoint := none
  lastAckedAvail := none
  reportedLoss := []
  reorderTolerance := 0
  highestRecvSeq := none
  orderlyStreak := 0
  lastNak := none
  packetsSinceAck := 0
  reassembler := Reassembler.empty
  fecRecv := config.fec.map fun f => FecReceiver.new f.groupSize (max (config.mtu.toNat - 44) 1)
  rate := RateEstimator.new
  stats := ⟨0, 0, 0, 0, 0, 0, 0, 0, 0⟩

namespace Connection

/-- `new_base`: the fields both ends start with. -/
def newBase (config : Config) (localSocketId : SocketId) (initialSeq : SeqNumber)
    (start : Instant) (side : Side) (state : State) : Connection :=
  { config, localSocketId, initialSeq, start, side
    link :=
      { state, peerSocketId := ⟨0⟩, synCookie := 0, lastHandshake := none, closing := false
        latency := config.latency }
    keys :=
      { crypto := none, keyMaterial := none, packetsOnKey := 0, rekeyPending := false
        nextKeyReady := false, pendingKm := none, kmRetries := 0 }
    tx := Sender.new config initialSeq
    rx := Receiver.new config initialSeq
    rtt := RttEstimator.new, lastSent := start, lastRecvAny := start
    events := [], outputs := [], trace := [] }

end Connection

end Srtrust
