import Srtrust.Connection.Rekey

/-! # The sending half (`connection/arq.rs`, sender; the closing paths of `connection.rs`)

Originating packets, pacing, acknowledgements, retransmission, send-side too-late drop,
and the graceful close that waits for the buffer to drain. -/
namespace Srtrust
open BigEndian
set_option autoImplicit false

namespace Connection

/-- `ACK_INTERVAL`. -/
def ackInterval : Duration := Duration.fromMillis 10

/-- `MIN_EXP_INTERVAL`. -/
def minExpInterval : Duration := Duration.fromMillis 300

/-- `SND_DROP_MIN_THRESHOLD`. -/
def sndDropMinThreshold : Duration := Duration.fromSecs 1

/-- `MAX_EXP_COUNT`. -/
def maxExpCount : ℕ := 8

/-- `MAX_PACE_BURST`. -/
def maxPaceBurst : ℕ := 256

/-- `micros_i64`. -/
def microsI64 (d : Duration) : ℤ := min (Duration.asMicros d : ℤ) 0x7FFFFFFFFFFFFFFF

/-- `in_range`: the inclusive circular range. -/
def inRange (seq start stop : SeqNumber) : Bool :=
  0 ≤ seq.offsetFrom start ∧ 0 ≤ stop.offsetFrom seq

theorem inRange_reduce (seq start stop : ℤ) (hseq : |seq - start| < 0x40000000)
    (hstop : |stop - seq| < 0x40000000) :
    inRange (SeqNumber.reduce seq) (SeqNumber.reduce start) (SeqNumber.reduce stop) = true
      ↔ start ≤ seq ∧ seq ≤ stop := by
  rw [abs_lt] at hseq hstop
  unfold inRange
  rw [SeqNumber.offsetFrom_reduce seq start (by omega) (by omega),
    SeqNumber.offsetFrom_reduce stop seq (by omega) (by omega), decide_eq_true_iff]
  omega

/-- Sequence arithmetic is integer arithmetic inside half the space: differences, comparisons and
ranges of reductions are those of the integers, and advancing is addition. -/
theorem sequence_arithmetic_embeds :
    (∀ x y : ℤ, |x - y| < 2 ^ 30 →
      (SeqNumber.reduce x).offsetFrom (SeqNumber.reduce y) = x - y
        ∧ (SeqNumber.reduce x).circularCmp (SeqNumber.reduce y) = SeqNumber.compareInt x y)
    ∧ (∀ (x : ℤ) (n : ℕ), (SeqNumber.reduce x).add n = SeqNumber.reduce (x + n))
    ∧ (∀ (s : SeqNumber) (n m : UInt32),
      (s.add n.toNat).add m.toNat = s.add (n + m).toNat
        ∧ ((s.add n.toNat).add m.toNat).val = (s.val + (n.toNat + m.toNat)) % 2 ^ 31)
    ∧ (∀ seq start stop : ℤ,
      |seq - start| < 2 ^ 30 → |stop - seq| < 2 ^ 30 → |stop - start| < 2 ^ 30 →
      (inRange (SeqNumber.reduce seq) (SeqNumber.reduce start) (SeqNumber.reduce stop) = true
        ↔ start ≤ seq ∧ seq ≤ stop))
    ∧ ∀ w : ℤ, IsStrictTotalOrder {s : SeqNumber // ∃ x, w ≤ x ∧ x < w + 2 ^ 30 ∧ s = SeqNumber.reduce x}
        fun a b => a.1.circularCmp b.1 = .less := by
  refine ⟨?_, SeqNumber.reduce_add, ?_, ?_, SeqNumber.window_order⟩
  · intro x y h
    rw [abs_lt] at h
    exact ⟨SeqNumber.offsetFrom_reduce x y (by omega) (by omega),
      SeqNumber.circularCmp_reduce x y (by omega) (by omega)⟩
  · intro s n m
    rw [SeqNumber.add_add]
    refine ⟨?_, rfl⟩
    apply SeqNumber.ext
    simp only [SeqNumber.add, UInt32.toNat_add]
    omega
  · intro seq start stop hseq hstop _
    exact inRange_reduce seq start stop hseq hstop

/-- Two numbers on either side of the wrap, and the range between them. -/
theorem sequence_arithmetic_across_wrap :
    (SeqNumber.reduce 0x80000003).offsetFrom (SeqNumber.reduce 0x7FFFFFFB) = 8
    ∧ (SeqNumber.reduce 0x80000003).circularCmp (SeqNumber.reduce 0x7FFFFFFB) = .greater
    ∧ inRange (SeqNumber.reduce 0x80000000) (SeqNumber.reduce 0x7FFFFFFB)
        (SeqNumber.reduce 0x80000003) = true := by
  obtain ⟨hcmp, -, -, hrange, -⟩ := sequence_arithmetic_embeds
  have h := hcmp 0x80000003 0x7FFFFFFB (by norm_num)
  refine ⟨h.1, h.2, ?_⟩
  exact (hrange 0x80000000 0x7FFFFFFB 0x80000003 (by norm_num) (by norm_num) (by norm_num)).mpr
    (by norm_num)

/-! ## Teardown -/

/-- The timers `clear_arq_timers` cancels. -/
def arqTimers : List TimerId := [.ack, .nak, .exp, .tsbpd, .sndPacing, .keepalive, .peerIdle]

def clearArqTimers (c : Connection) : Connection :=
  { c with outputs := c.outputs ++ arqTimers.map .clearTimer }

/-- Enters the terminal state. -/
def fail (c : Connection) : Connection := { c with link := { c.link with state := .failed } }

/-- Queues a SHUTDOWN; unlike `emit` it leaves the send time alone. -/
def sayShutdown (c : Connection) (now : Instant) : Connection :=
  match encodeControl c.link.peerSocketId (c.wireTs now) .shutdown with
  | some bytes => c.output (.sendDatagram bytes)
  | none => c.panicked

/-- Takes back a pending close. -/
def clearClosing (c : Connection) : Connection := { c with link := { c.link with closing := false } }

/-- `finalize_shutdown`: SHUTDOWN, timers down, `Closed`. -/
def finalizeShutdown (c : Connection) (now : Instant) : Connection :=
  ((c.sayShutdown now).clearArqTimers.output (.clearTimer .linger)).clearClosing.fail.event .closed

/-- `finish_close_if_drained`. -/
def finishCloseIfDrained (c : Connection) (now : Instant) : Connection :=
  if c.link.closing ∧ c.tx.sendBuffer.isEmpty ∧ c.tx.sendQueue.isEmpty then c.finalizeShutdown now
  else c

/-- `on_linger_timer`. -/
def onLingerTimer (c : Connection) (now : Instant) : Connection :=
  if c.link.closing then c.finalizeShutdown now else c

/-- Waits for the sender to drain, for the linger period at most. -/
def beginClose (c : Connection) : Connection :=
  { c with link := { c.link with closing := true } }.output (.setTimer .linger c.config.linger)

/-- `close`. -/
def close (c : Connection) (now : Instant) : Connection :=
  if c.link.closing ∨ c.link.state = .failed then c
  else if c.link.state ≠ .connected then c.fail.event .closed
  else if c.tx.sendBuffer.isEmpty ∧ c.tx.sendQueue.isEmpty then c.finalizeShutdown now
  else c.beginClose

/-! ## Originating data -/

/-- `arm_exp`: the backed-off, floored retransmission timeout. -/
def armExp (c : Connection) : Connection :=
  c.output (.setTimer .exp (max (c.rtt.rto * c.tx.expCount) minExpInterval))

/-- The header and payload of an original data packet, before encryption. -/
def dataPacket (c : Connection) (fragment : Fragment) (now : Instant) : DataPacket where
  seq := c.tx.nextSendSeq
  position := fragment.position
  inOrder := true
  encryption := match c.keys.crypto with | some crypto => crypto.active | none => .none
  retransmitted := false
  messageNumber := MsgNumber.new fragment.message
  timestamp := c.wireTs now
  destSocketId := c.link.peerSocketId
  payload := fragment.payload

/-- Encrypts a packet for the wire, recording the cipher call; `none` where the cipher
panics. -/
def sealPacket (P : Primitives) (c : Connection) (packet : DataPacket) :
    Option (DataPacket × List Trace) :=
  match c.keys.crypto with
  | none => some (packet, [])
  | some crypto => do
    let aad := packet.headerAad
    let (ciphertext, keys) ← crypto.encrypt P packet.seq.value aad packet.payload
    some ({ packet with payload := ciphertext },
      [.encrypted ⟨keys, packet.seq, aad, packet.payload, ciphertext⟩])

/-- Clips a stored packet into the current FEC group. -/
def fecFeed (tx : Sender) (stored : DataPacket) : Option FecParity × Option FecEncoder :=
  match tx.fecSend with
  | none => (none, none)
  | some fec =>
    let fed := fec.feed
      { length := UInt16.ofNat (min stored.payload.length 0xFFFF)
        flags := UInt8.ofNat stored.encryption.toBits
        timestamp := stored.timestamp.asMicros
        payload := stored.payload }
    (fed.1, some fed.2)

/-- `emit_fec_parity`: a data packet with message number zero and the group's last sequence
number. -/
def emitFecParity (c : Connection) (groupLastSeq : SeqNumber) (parity : FecParity)
    (now : Instant) : Connection :=
  let fecPacket : DataPacket :=
    { seq := groupLastSeq
      position := .single
      inOrder := true
      encryption := .none
      retransmitted := false
      messageNumber := MsgNumber.new 0
      timestamp := ⟨parity.timestampClip⟩
      destSocketId := c.link.peerSocketId
      payload := parity.encode Fec.rowIndex }
  c.emit fecPacket.encode now

/-- Buffers an encrypted packet for retransmission and clips it into the FEC group. -/
def storePacket (c : Connection) (stored : DataPacket) : Connection :=
  { c with
    tx :=
      { c.tx with
        sendBuffer := c.tx.sendBuffer.push stored
        fecSend := (fecFeed c.tx stored).2 } }

/-- Emits the parity of a group that the packet completed. -/
def emitParityIfFull (c : Connection) (seq : SeqNumber) (parity : Option FecParity)
    (now : Instant) : Connection :=
  match parity with
  | some parity => c.emitFecParity seq parity now
  | none => c

/-- Moves on to the next sequence number. -/
def advanceSeq (c : Connection) (stored : DataPacket) : Connection :=
  { c with
    tx :=
      { c.tx with
        nextSendSeq := c.tx.nextSendSeq.next
        liveCc := c.tx.liveCc.map fun (cc : LiveCc) => cc.onPacketSent stored.payload.length } }.record
    [.originated stored]

/-- Stores and emits an encrypted packet: the second half of `send_data`. -/
def transmit (c : Connection) (stored : DataPacket) (now : Instant) : Connection :=
  let sent := (c.storePacket stored).emit stored.encode now
  -- the parity follows the packet that completes its group
  let sent := sent.emitParityIfFull stored.seq (fecFeed c.tx stored).1 now
  let sent := sent.advanceSeq stored
  if c.tx.sendBuffer.isEmpty then sent.armExp else sent

/-- `send_data`: originates one data packet. -/
def sendData (P : Primitives) (c : Connection) (fragment : Fragment) (now : Instant) :
    Connection :=
  let c' := c.accountKeyAndMaybeRotate
  match sealPacket P c' (c'.dataPacket fragment now) with
  | none => c.panicked
  | some (stored, calls) =>
    ({ c' with
        tx :=
          { c'.tx with
            stats :=
              { c'.tx.stats with
                packetsSent := c'.tx.stats.packetsSent + 1
                bytesSent := c'.tx.stats.bytesSent + fragment.payload.length } } }.record
      calls).transmit stored now

/-! ## Pacing -/

/-- Sets the pacing queue. -/
def setQueue (c : Connection) (fragments : List Fragment) : Connection :=
  { c with tx := { c.tx with sendQueue := fragments } }

/-- Sets the next pacing slot. -/
def setNextSend (c : Connection) (t : Option Instant) : Connection :=
  { c with tx := { c.tx with nextSend := t } }

/-- One released packet, and the slot after it. -/
def releaseOne (P : Primitives) (c : Connection) (fragment : Fragment) (rest : List Fragment)
    (period : Duration) (now : Instant) : Connection :=
  let c := (c.setQueue rest).sendData P fragment now
  c.setNextSend (some (c.tx.nextSend.getD now + (period : ℤ)))

/-- The release loop of `pace`; the flag says whether the burst cap was reached. -/
def paceLoop (P : Primitives) (period : Duration) (now : Instant) :
    ℕ → Connection → Connection × Bool
  | 0, c => (c, true)
  | budget + 1, c =>
    if c.tx.nextSend.any (now < ·) then (c, false)
    else
      match c.tx.sendQueue with
      | [] => (c.setNextSend none, false)
      | fragment :: rest => paceLoop P period now budget (c.releaseOne P fragment rest period now)

/-- Releases what is due. Still behind schedule at the burst cap, the schedule is resynced so
that the debt stays bounded. -/
def release (P : Primitives) (c : Connection) (period : Duration) (now : Instant) : Connection :=
  let paced := paceLoop P period now maxPaceBurst c
  if paced.2 ∧ paced.1.tx.nextSend.any (· < now) then
    paced.1.setNextSend (some (now + (period : ℤ)))
  else paced.1

/-- Arms the timer for the next slot; an empty queue may complete a close. -/
def schedulePacing (c : Connection) (now : Instant) : Connection :=
  if c.tx.sendQueue.isEmpty then (c.output (.clearTimer .sndPacing)).finishCloseIfDrained now
  else c.output (.setTimer .sndPacing ((c.tx.nextSend.getD now).saturatingDurationSince now))

/-- `pace`: releases every queued packet whose slot has come. -/
def pace (P : Primitives) (c : Connection) (now : Instant) : Connection :=
  match c.tx.liveCc with
  | none => c
  | some cc => (c.release P cc.sndPeriod now).schedulePacing now

/-! ## Feedback from the peer -/

/-- A send-side packet that is too old to play in time. -/
def tooLate (c : Connection) (now : Instant) (s : Sent) : Bool :=
  let budget := max (microsI64 c.link.latency) (microsI64 sndDropMinThreshold)
    + 2 * microsI64 ackInterval
  budget < (c.wireTs now).wrappingDiff s.packet.timestamp

/-- The packets `drop_too_late` sheds: the too-late prefix of the send buffer. -/
def shed (c : Connection) (now : Instant) : List Sent :=
  c.tx.sendBuffer.packets.takeWhile (c.tooLate now)

/-- Takes the shed packets out of the buffer and counts them. -/
def dropShed (c : Connection) (now : Instant) : Connection :=
  { c with
    tx :=
      { c.tx with
        sendBuffer := ⟨c.tx.sendBuffer.packets.dropWhile (c.tooLate now)⟩
        stats :=
          { c.tx.stats with
            packetsDroppedSent := c.tx.stats.packetsDroppedSent + (c.shed now).length } } }

/-- Cancels the retransmission timer when nothing is outstanding. -/
def clearExpIfEmpty (c : Connection) : Connection :=
  if c.tx.sendBuffer.isEmpty then c.output (.clearTimer .exp) else c

/-- `drop_too_late`: sheds the too-late prefix and announces it to the peer. -/
def dropTooLate (c : Connection) (now : Instant) : Connection :=
  match (c.shed now).head?, (c.shed now).getLast? with
  | some first, some last =>
    ((c.dropShed now).emitControl
      (.dropReq (UInt32.ofNat last.packet.messageNumber.value) first.packet.seq last.packet.seq)
      now).clearExpIfEmpty
  | _, _ => c

/-- `encode_retransmit`: the stored packet with the `R` flag set. -/
def encodeRetransmit (packet : DataPacket) : Bytes := { packet with retransmitted := true }.encode

/-- Counts one retransmission. -/
def countRetransmit (c : Connection) (packet : DataPacket) : Connection :=
  { c with
    tx :=
      { c.tx with
        stats :=
          { c.tx.stats with
            packetsRetransmitted := c.tx.stats.packetsRetransmitted + 1
            bytesRetransmitted := c.tx.stats.bytesRetransmitted + packet.payload.length } } }

/-- Notes in the send buffer when `seq` was sent again. -/
def markRetransmitted (c : Connection) (seq : SeqNumber) (now : Instant) : Connection :=
  { c with tx := { c.tx with sendBuffer := c.tx.sendBuffer.markRetransmitted seq now } }

/-- One packet sent again. -/
def resend (c : Connection) (packet : DataPacket) (seq : SeqNumber) (now : Instant) : Connection :=
  ((c.countRetransmit packet).emit (encodeRetransmit packet) now).markRetransmitted seq now

/-- Whether `seq` was sent again less than `gate` ago. -/
def resentRecently (c : Connection) (gate : Duration) (seq : SeqNumber) (now : Instant) : Bool :=
  (c.tx.sendBuffer.lastRetransmitted seq).any fun t => now.saturatingDurationSince t < gate

/-- One turn of the retransmission loop. -/
def retransmitOne (c : Connection) (gate : Duration) (start stop seq : SeqNumber)
    (now : Instant) : Connection :=
  if inRange seq start stop && !c.resentRecently gate seq now then
    match c.tx.sendBuffer.get seq with
    | none => c
    | some packet => c.resend packet seq now
  else c

/-- The `n` sequence numbers from `seq` on. -/
def walk : ℕ → SeqNumber → List SeqNumber
  | 0, _ => []
  | n + 1, seq => seq :: walk n seq.next

/-- The sequence numbers a loop from `first` to `last`, both included, visits. -/
def visited (first last : SeqNumber) : List SeqNumber :=
  walk ((last.val + 0x80000000 - first.val) % 0x80000000 + 1) first

/-- `retransmit_range`: walks the buffer from its first to its last sequence number. -/
def retransmitRange (c : Connection) (start stop : SeqNumber) (now : Instant) : Connection :=
  match c.tx.sendBuffer.firstSeq, c.tx.sendBuffer.lastSeq with
  | some first, some last =>
    (visited first last).foldl (fun d seq => d.retransmitOne c.rtt.rtt start stop seq now) c
  | _, _ => c

/-- Retransmits everything outstanding. -/
def retransmitAll (c : Connection) (now : Instant) : Connection :=
  match c.tx.sendBuffer.firstSeq, c.tx.sendBuffer.lastSeq with
  | some first, some last => c.retransmitRange first last now
  | _, _ => c

/-- Releases what an ACK covers, and takes over the window a full ACK advertises. -/
def releaseAcked (c : Connection) (ack : Ack) : Connection :=
  { c with
    tx :=
      { c.tx with
        stats := { c.tx.stats with acksReceived := c.tx.stats.acksReceived + 1 }
        sendBuffer := c.tx.sendBuffer.ack ack.lastAckSeq
        peerAvailWindow :=
          match ack.cif with
          | .full _ _ availBufferSize _ _ _ => availBufferSize.toNat
          | _ => c.tx.peerAvailWindow } }

/-- Recomputes the pacing period and resets the retransmission backoff. -/
def resetBackoff (c : Connection) : Connection :=
  { c with tx := { c.tx with liveCc := c.tx.liveCc.map LiveCc.onAck, expCount := 1 } }

/-- Re-arms the retransmission timer, or cancels it when nothing is outstanding. -/
def rearmExp (c : Connection) : Connection :=
  if c.tx.sendBuffer.isEmpty then c.output (.clearTimer .exp) else c.armExp

/-- Answers an ACK that carries a round-trip measurement. -/
def answerAck (c : Connection) (ack : Ack) (now : Instant) : Connection :=
  if ack.cif ≠ .light then c.emitControl (.ackAck ack.ackNumber) now else c

/-- `on_ack`. -/
def onAck (c : Connection) (ack : Ack) (now : Instant) : Connection :=
  let c := (c.releaseAcked ack).dropTooLate now
  let c := c.resetBackoff.rearmExp
  (c.finishCloseIfDrained now).answerAck ack now

/-- Counts one NAK. -/
def countNak (c : Connection) : Connection :=
  { c with
    tx := { c.tx with stats := { c.tx.stats with naksReceived := c.tx.stats.naksReceived + 1 } } }

/-- `on_nak`. -/
def onNak (c : Connection) (loss : List LossRange) (now : Instant) : Connection :=
  loss.foldl (fun c range => c.retransmitRange range.start range.stop now)
    (c.countNak.dropTooLate now)

/-- Counts one expiry, for the backoff of the next. -/
def backOff (c : Connection) : Connection :=
  { c with tx := { c.tx with expCount := min (c.tx.expCount + 1) maxExpCount } }

/-- `on_exp_timer`. -/
def onExpTimer (c : Connection) (now : Instant) : Connection :=
  if c.link.state ≠ .connected ∨ c.tx.sendBuffer.isEmpty then c
  else
    let c := c.dropTooLate now
    if c.tx.sendBuffer.isEmpty then c else (c.retransmitAll now).backOff.armExp

end Connection

end Srtrust
