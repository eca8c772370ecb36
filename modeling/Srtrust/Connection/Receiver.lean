import Srtrust.Connection.Sender

/-! # The receiving half (`connection/arq.rs`, receiver and periodic timers)

Buffering and decrypting data, timed delivery, acknowledgements, loss reports and the
timers that drive them. `insert_data` is cut into the stages its comments name. -/
namespace Srtrust
open BigEndian
set_option autoImplicit false

namespace Connection

/-- `LIGHT_ACK_EVERY`. -/
def lightAckEvery : ℕ := 64

/-- `MIN_NAK_INTERVAL`. -/
def minNakInterval : Duration := Duration.fromMillis 20

/-- `MAX_PENDING_ACKS`. -/
def maxPendingAcks : ℕ := 16

/-- `KEEPALIVE_PERIOD`. -/
def keepalivePeriod : Duration := Duration.fromSecs 1

/-- `MAX_REORDER_TOLERANCE`. -/
def maxReorderTolerance : ℕ := 32

/-- `REORDER_DECAY_AFTER`. -/
def reorderDecayAfter : ℕ := 50

/-- `micros_u32`. -/
def microsU32 (d : Duration) : UInt32 := UInt32.ofNat (clampU32 (Duration.asMicros d))

/-- `apply_signed`: offsets an instant, staying put below the clock's origin. -/
def applySigned (t : Instant) (micros : ℤ) : Instant :=
  if 0 ≤ micros then t + (Duration.fromMicros micros.toNat : ℤ)
  else (t.checkedSub (Duration.fromMicros micros.natAbs)).getD t

/-- `signed_micros`: whole microseconds from one instant to another. -/
def signedMicros (start stop : Instant) : ℤ :=
  if start ≤ stop then min (Duration.asMicros (stop - start).toNat : ℤ) 0x7FFFFFFFFFFFFFFF
  else -min (Duration.asMicros (start - stop).toNat : ℤ) 0x7FFFFFFFFFFFFFFF

/-- `nak_interval`. -/
def nakInterval (c : Connection) : Duration := max (c.rtt.rto / 2) minNakInterval

/-- `available_recv_buffer`: the flow window less what is buffered and what is undrained. -/
def availableRecvBuffer (c : Connection) : ℕ :=
  c.config.flowWindow.toNat - clampU32 (c.rx.recvBuffer.occupancy + c.events.length)

/-! ## Entering the connected phase -/

/-- `enter_connected`. -/
def enterConnected (c : Connection) (negotiated : Negotiated) (now : Instant) : Connection :=
  let c :=
    { c with
      link :=
        { c.link with
          state := .connected
          peerSocketId := negotiated.peerSocketId
          latency := negotiated.latency }
      rx := { c.rx with recvBuffer := RecvBuffer.new negotiated.peerInitialSeq } }
  let c := c.output (.setTimer .ack ackInterval)
  let c := c.output (.setTimer .nak c.nakInterval)
  let c := c.output (.setTimer .keepalive keepalivePeriod)
  let c := c.output (.setTimer .peerIdle c.config.peerIdleTimeout)
  { c with lastSent := now, lastRecvAny := now }.event (.connected negotiated)

/-! ## Timed delivery -/

/-- `tsbpd_expected_arrival`. -/
def tsbpdExpectedArrival (c : Connection) (timestamp : Timestamp) : Option Instant :=
  match c.rx.tsbpdBase, c.rx.tsWrap with
  | some (refTs, refInstant), some wrap =>
    some (applySigned refInstant
      (wrap.offsetOf timestamp - (refTs.asMicros.toNat : ℤ) + c.rx.drift.correctionUs))
  | _, _ => none

/-- `tsbpd_play_time`. -/
def tsbpdPlayTime (c : Connection) (timestamp : Timestamp) : Option Instant :=
  (c.tsbpdExpectedArrival timestamp).map (· + (c.link.latency : ℤ))

/-- Puts a buffer in place. -/
def setRecvBuffer (c : Connection) (recvBuffer : RecvBuffer) : Connection :=
  { c with rx := { c.rx with recvBuffer } }

/-- Hands a popped packet to the reassembler, and a completed message to the application. -/
def deliverPacket (c : Connection) (packet : DataPacket) : Connection :=
  let pushed := c.rx.reassembler.push packet
  let c := { c with rx := { c.rx with reassembler := pushed.2 } }.record [.popped packet]
  match pushed.1 with
  | some message => c.event (.dataReceived message)
  | none => c

/-- Takes a popped packet out of the buffer, counting the gap skipped in front of it. -/
def deliverPopped (c : Connection) (packet : DataPacket) (rest : RecvBuffer) : Connection :=
  let advanced := rest.ackPoint.offsetFrom c.rx.recvBuffer.ackPoint
  { c with
    rx :=
      { c.rx with
        recvBuffer := rest
        stats :=
          { c.rx.stats with
            packetsDropped := c.rx.stats.packetsDropped + (advanced - 1).toNat } } }.deliverPacket packet

/-- The delivery loop; every turn that continues takes at least one slot. -/
def deliverLoop (now : Instant) : ℕ → Connection → Connection
  | 0, c => c
  | fuel + 1, c =>
    match c.rx.recvBuffer.peek with
    | none => c.output (.clearTimer .tsbpd)
    | some (_, timestamp) =>
      match c.tsbpdPlayTime timestamp with
      | none => c
      | some playTime =>
        if now < playTime then
          c.output (.setTimer .tsbpd (playTime.saturatingDurationSince now))
        else
          match c.rx.recvBuffer.pop with
          | none => deliverLoop now fuel c
          | some (packet, rest) => deliverLoop now fuel (c.deliverPopped packet rest)

/-- `deliver_tsbpd`: delivers every buffered packet whose play time has come. -/
def deliverTsbpd (c : Connection) (now : Instant) : Connection :=
  deliverLoop now (c.rx.recvBuffer.slots.length + 1) c

/-- The flush on a received SHUTDOWN: packets at the ACK point, up to the first gap. -/
def flushLoop : ℕ → Connection → Connection
  | 0, c => c
  | fuel + 1, c =>
    match c.rx.recvBuffer.popInOrder with
    | none => c
    | some (packet, rest) =>
      flushLoop fuel ((c.setRecvBuffer rest).deliverPacket packet)

/-- The SHUTDOWN arm of `on_connected_packet`. -/
def onShutdown (c : Connection) : Connection :=
  (flushLoop (c.rx.recvBuffer.slots.length + 1) c).fail.clearArqTimers.event .closed

/-! ## Acknowledgements and loss reports -/

/-- The bookkeeping of a light acknowledgement. -/
def noteLightAck (c : Connection) : Connection :=
  { c with
    rx :=
      { c.rx with
        packetsSinceAck := 0
        stats := { c.rx.stats with acksSent := c.rx.stats.acksSent + 1 } } }

/-- `send_light_ack`. -/
def sendLightAck (c : Connection) (now : Instant) : Connection :=
  c.noteLightAck.emitControl (.ack ⟨0, c.rx.recvBuffer.receivedAckPoint, .light⟩) now

def countNakSent (c : Connection) : Connection :=
  { c with rx := { c.rx with stats := { c.rx.stats with naksSent := c.rx.stats.naksSent + 1 } } }

/-- Notes when the last loss report went out. -/
def noteNak (c : Connection) (now : Instant) : Connection :=
  { c with rx := { c.rx with lastNak := some now } }

/-- `send_nak`. -/
def sendNak (c : Connection) (missing : List (SeqNumber × SeqNumber)) (now : Instant) :
    Connection :=
  (c.countNakSent.emitControl (.nak (missing.map fun r => ⟨r.1, r.2⟩)) now).noteNak now

/-- The full acknowledgement of the current state. -/
def fullAck (c : Connection) : Ack where
  ackNumber := c.rx.nextAckNumber
  lastAckSeq := c.rx.recvBuffer.receivedAckPoint
  cif :=
    .full (microsU32 c.rtt.rtt) (microsU32 c.rtt.var) (UInt32.ofNat c.availableRecvBuffer)
      (UInt32.ofNat c.rx.rate.deliveryRate.1) (UInt32.ofNat c.rx.rate.peakRate)
      (UInt32.ofNat c.rx.rate.deliveryRate.2)

/-- The bookkeeping of a full acknowledgement. -/
def noteFullAck (c : Connection) (now : Instant) : Connection :=
  let pendingAcks := c.rx.pendingAcks ++ [(c.rx.nextAckNumber, now)]
  { c with
    rx :=
      { c.rx with
        nextAckNumber := c.rx.nextAckNumber + 1
        pendingAcks := if maxPendingAcks < pendingAcks.length then pendingAcks.tail else pendingAcks
        lastAckedPoint := some c.rx.recvBuffer.receivedAckPoint
        lastAckedAvail := some c.availableRecvBuffer
        packetsSinceAck := 0
        stats := { c.rx.stats with acksSent := c.rx.stats.acksSent + 1 } } }

/-- The bookkeeping and emission of a full acknowledgement. -/
def sendFullAck (c : Connection) (now : Instant) : Connection :=
  (c.noteFullAck now).emitControl (.ack c.fullAck) now

/-- Whether the last full ACK this side sent already carries the current point and window. -/
def ackRedundant (c : Connection) : Bool :=
  c.rx.lastAckedPoint = some c.rx.recvBuffer.receivedAckPoint
    ∧ c.rx.lastAckedAvail = some c.availableRecvBuffer

/-- `on_ack_timer`. -/
def onAckTimer (c : Connection) (now : Instant) : Connection :=
  if c.link.state ≠ .connected then c
  else
    let c := c.output (.setTimer .ack ackInterval)
    if c.ackRedundant then c -- nothing new to acknowledge or advertise
    else c.sendFullAck now

/-- `on_nak_timer`. -/
def onNakTimer (c : Connection) (now : Instant) : Connection :=
  if c.link.state ≠ .connected then c
  else
    let c := c.output (.setTimer .nak c.nakInterval)
    if c.rx.lastNak.any (fun t => now.saturatingDurationSince t < c.rtt.rto) then c
    else
      let missing := c.rx.recvBuffer.missingAged c.rx.reorderTolerance
      if missing.isEmpty then c else c.sendNak missing now

/-- `on_ackack`. -/
def onAckack (c : Connection) (ackNumber : UInt32) (now : Instant) : Connection :=
  match c.rx.pendingAcks.findIdx? (·.1 = ackNumber) with
  | none => c
  | some pos =>
    match c.rx.pendingAcks[pos]? with
    | none => c
    | some (_, sentAt) =>
      { c with
        rtt := c.rtt.sample (now.saturatingDurationSince sentAt)
        rx := { c.rx with pendingAcks := c.rx.pendingAcks.drop (pos + 1) } }

/-! ## Incoming data -/

/-- `track_reorder`: a belated original raises the tolerance, orderly arrival decays it. -/
def trackReorder (rx : Receiver) (seq : SeqNumber) (retransmitted : Bool) : Receiver :=
  if retransmitted then rx
  else
    match rx.highestRecvSeq with
    | none => { rx with highestRecvSeq := some seq }
    | some highest =>
      let offset := seq.offsetFrom highest
      if 0 ≤ offset then
        let orderlyStreak := rx.orderlyStreak + 1
        if reorderDecayAfter ≤ orderlyStreak then
          { rx with
            highestRecvSeq := some seq, orderlyStreak := 0
            reorderTolerance := rx.reorderTolerance - 1 }
        else { rx with highestRecvSeq := some seq, orderlyStreak }
      else
        { rx with
          reorderTolerance := max rx.reorderTolerance (min offset.natAbs maxReorderTolerance)
          orderlyStreak := 0 }

/-- Decrypts a packet by the slot its flag names, recording the cipher call; `none` for a key
not held or a failed tag. -/
def openPacket (P : Primitives) (c : Connection) (data : DataPacket) :
    Option (DataPacket × List Trace) :=
  match data.encryption with
  | .none => some (data, [])
  | flag => do
    let crypto ← c.keys.crypto
    let aad := data.headerAad
    let (plaintext, keys) ← crypto.decrypt P data.seq.value flag aad data.payload
    some ({ data with payload := plaintext },
      [.decrypted ⟨keys, data.seq, aad, data.payload, plaintext⟩])

/-- Counts a newly stored packet and feeds the reorder and rate estimators. -/
def recordArrival (c : Connection) (data : DataPacket) (recvBuffer : RecvBuffer) (now : Instant) :
    Connection :=
  let payloadLen := data.payload.length
  let rx :=
    { c.rx with
      recvBuffer
      stats :=
        { c.rx.stats with
          packetsReceived := c.rx.stats.packetsReceived + 1
          bytesReceived := c.rx.stats.bytesReceived + payloadLen } }
  let rx := trackReorder rx data.seq data.retransmitted
  let arrivalUs := min (Duration.asMicros (now.saturatingDurationSince c.start)) 0xFFFFFFFFFFFFFFFF
  { c with rx := { rx with rate := rx.rate.record arrivalUs (clampU32 payloadLen) } }

/-- Anchors the delivery timeline on the first packet, and follows timestamp wraps after. -/
def anchorTsbpd (c : Connection) (timestamp : Timestamp) (now : Instant) : Connection :=
  match c.rx.tsbpdBase with
  | none =>
    { c with
      rx := { c.rx with tsbpdBase := some (timestamp, now), tsWrap := some (TsbpdWrap.new timestamp) } }
  | some _ => { c with rx := { c.rx with tsWrap := c.rx.tsWrap.map (·.observe timestamp) } }

/-- Samples clock drift from an original arrival. -/
def sampleDrift (c : Connection) (data : DataPacket) (now : Instant) : Connection :=
  match data.retransmitted, c.tsbpdExpectedArrival data.timestamp with
  | false, some expected =>
    { c with
      rx :=
        { c.rx with
          drift := c.rx.drift.sample (signedMicros expected now) (microsI64 c.rtt.rtt) } }
  | _, _ => c

def countTowardsAck (c : Connection) : Connection :=
  { c with rx := { c.rx with packetsSinceAck := c.rx.packetsSinceAck + 1 } }

/-- Counts towards the light ACK, and sends it when it is due. -/
def lightAckIfDue (c : Connection) (now : Instant) : Connection :=
  if lightAckEvery ≤ c.countTowardsAck.rx.packetsSinceAck then c.countTowardsAck.sendLightAck now
  else c.countTowardsAck

/-- Remembers the last loss report. -/
def setReportedLoss (c : Connection) (missing : List (SeqNumber × SeqNumber)) : Connection :=
  { c with rx := { c.rx with reportedLoss := missing } }

/-- Reports aged gaps that the last report did not name. -/
def reportGaps (c : Connection) (now : Instant) : Connection :=
  if c.rx.recvBuffer.hasGaps then
    let missing := c.rx.recvBuffer.missingAged c.rx.reorderTolerance
    if ¬ missing.isEmpty ∧ missing ≠ c.rx.reportedLoss then
      (c.sendNak missing now).setReportedLoss missing
    else c
  else c.setReportedLoss []

/-- What `insert_data` does once a packet is newly stored. -/
def afterInsert (c : Connection) (data : DataPacket) (recvBuffer : RecvBuffer) (now : Instant) :
    Connection :=
  let c := c.recordArrival data recvBuffer now
  let c := c.anchorTsbpd data.timestamp now
  let c := c.sampleDrift data now
  let c := c.deliverTsbpd now
  let c := c.lightAckIfDue now
  c.reportGaps now

def countDroppedFull (c : Connection) : Connection :=
  { c with
    rx := { c.rx with stats := { c.rx.stats with packetsDroppedFull := c.rx.stats.packetsDroppedFull + 1 } } }

def countUndecryptable (c : Connection) : Connection :=
  { c with
    rx := { c.rx with stats := { c.rx.stats with packetsUndecryptable := c.rx.stats.packetsUndecryptable + 1 } } }

def countDuplicate (c : Connection) : Connection :=
  { c with
    rx := { c.rx with stats := { c.rx.stats with packetsDuplicate := c.rx.stats.packetsDuplicate + 1 } } }

/-- `insert_data`. -/
def insertData (P : Primitives) (c : Connection) (data : DataPacket) (now : Instant) :
    Connection :=
  if c.availableRecvBuffer = 0 then c.countDroppedFull
  else
    match c.openPacket P data with
    | none => c.countUndecryptable
    | some (data, calls) =>
      let c := c.record calls
      let inserted := c.rx.recvBuffer.insert data
      if inserted.1 then c.afterInsert data inserted.2 now else c.countDuplicate

def countRecovered (c : Connection) : Connection :=
  { c with
    rx := { c.rx with stats := { c.rx.stats with packetsRecovered := c.rx.stats.packetsRecovered + 1 } } }

/-- The solo message a rebuilt packet is presented as; `none` for an invalid key flag. -/
def rebuilt (destSocketId : SocketId) (rp : RecoveredPacket) : Option DataPacket :=
  match Encryption.fromBits rp.flags.toNat with
  | .error _ => none
  | .ok encryption =>
    some
      { seq := rp.seq
        position := .single
        inOrder := true
        encryption
        retransmitted := true
        messageNumber := MsgNumber.new 1
        timestamp := ⟨rp.timestamp⟩
        destSocketId
        payload := rp.payload }

/-- `inject_recovered`: a rebuilt packet enters as if it had arrived on the wire. -/
def injectRecovered (P : Primitives) (c : Connection) (rp : RecoveredPacket) (now : Instant) :
    Connection :=
  match rebuilt c.link.peerSocketId rp with
  | none => c
  | some packet => c.countRecovered.insertData P packet now

def injectAll (P : Primitives) (c : Connection) (recovered : List RecoveredPacket)
    (now : Instant) : Connection :=
  recovered.foldl (fun c rp => c.injectRecovered P rp now) c

/-- Puts the FEC decoder's new state in place. -/
def setFecRecv (c : Connection) (fec : FecReceiver) : Connection :=
  { c with rx := { c.rx with fecRecv := some fec } }

/-- The fields of a received packet that the FEC decoder keeps. -/
def fecData (data : DataPacket) : FecData where
  length := UInt16.ofNat (min data.payload.length 0xFFFF)
  flags := UInt8.ofNat data.encryption.toBits
  timestamp := data.timestamp.asMicros
  payload := data.payload

/-- `on_data`: parity to the FEC decoder, real packets to the buffer. -/
def onData (P : Primitives) (c : Connection) (data : DataPacket) (now : Instant) : Connection :=
  match c.rx.fecRecv with
  | none => c.insertData P data now
  | some fec =>
    if data.messageNumber.value = 0 then
      let observed := fec.observeParity data.seq data.payload data.timestamp.asMicros
      (c.setFecRecv observed.1).injectAll P observed.2 now
    else
      let observed := fec.observeData data.seq (fecData data)
      ((c.setFecRecv observed.1).insertData P data now).injectAll P observed.2 now

/-- Puts a buffer that has moved forward in place, counting what it skipped. -/
def replaceBuffer (c : Connection) (recvBuffer : RecvBuffer) (skipped : ℕ) : Connection :=
  { c with
    rx :=
      { c.rx with
        recvBuffer
        stats := { c.rx.stats with packetsDropped := c.rx.stats.packetsDropped + skipped }
        reportedLoss := recvBuffer.missing } }

/-- Moves the buffer past a range the sender has given up. -/
def skipRange (c : Connection) (first last : SeqNumber) : Connection :=
  let recvBuffer := c.rx.recvBuffer.dropRange first last
  c.replaceBuffer recvBuffer (recvBuffer.ackPoint.offsetFrom c.rx.recvBuffer.ackPoint).toNat

/-- `on_dropreq`: the sender will never deliver the range. -/
def onDropreq (c : Connection) (first last : SeqNumber) (now : Instant) : Connection :=
  (c.skipRange first last).deliverTsbpd now

/-! ## Liveness timers -/

/-- `on_keepalive_timer`. -/
def onKeepaliveTimer (c : Connection) (now : Instant) : Connection :=
  if c.link.state ≠ .connected then c
  else
    let c := c.resendPendingKm now
    let c :=
      if keepalivePeriod ≤ now.saturatingDurationSince c.lastSent then c.emitControl .keepalive now
      else c
    c.output (.setTimer .keepalive keepalivePeriod)

/-- `on_peer_idle_timer`. -/
def onPeerIdleTimer (c : Connection) (now : Instant) : Connection :=
  if c.link.state ≠ .connected then c
  else
    let idle := now.saturatingDurationSince c.lastRecvAny
    if c.config.peerIdleTimeout ≤ idle then
      c.fail.clearArqTimers.event (.failed .timeout)
    else c.output (.setTimer .peerIdle (c.config.peerIdleTimeout - idle))

end Connection

end Srtrust
