import Srtrust.Session.Embedder

/-! # Outputs that wait

A connection writes its output queue and never reads it. Outputs that an embedder has left in the queue
change nothing of what a call does: they stay in front of those it adds. -/
namespace Srtrust
open BigEndian
set_option autoImplicit false

namespace Connection

/-- The connection with some outputs still in front of its own. -/
def defer (pending : List Output) (c : Connection) : Connection := { c with outputs := pending ++ c.outputs }

section Fields
variable (pending : List Output) (c : Connection)

@[simp] theorem defer_config : (c.defer pending).config = c.config := rfl
@[simp] theorem defer_side : (c.defer pending).side = c.side := rfl
@[simp] theorem defer_link : (c.defer pending).link = c.link := rfl
@[simp] theorem defer_keys : (c.defer pending).keys = c.keys := rfl
@[simp] theorem defer_tx : (c.defer pending).tx = c.tx := rfl
@[simp] theorem defer_rx : (c.defer pending).rx = c.rx := rfl
@[simp] theorem defer_rtt : (c.defer pending).rtt = c.rtt := rfl
@[simp] theorem defer_wireTs (now : Instant) : (c.defer pending).wireTs now = c.wireTs now := rfl

end Fields

variable (pending : List Output) (c : Connection)

theorem ite_defer {pending : List Output} {p : Prop} [Decidable p] {a b a' b' : Connection}
    (ha : a = a'.defer pending) (hb : b = b'.defer pending) :
    (if p then a else b) = (if p then a' else b').defer pending := by
  rw [ha, hb, apply_ite (defer pending)]

/-! ## Queues -/

@[simp] theorem output_defer (o : Output) : (c.defer pending).output o = (c.output o).defer pending := by
  simp [output, defer]

@[simp] theorem event_defer (e : Event) : (c.defer pending).event e = (c.event e).defer pending := rfl

@[simp] theorem record_defer (entries : List Trace) :
    (c.defer pending).record entries = (c.record entries).defer pending := rfl

@[simp] theorem panicked_defer : (c.defer pending).panicked = c.panicked.defer pending := rfl

@[simp] theorem emit_defer (datagram : Bytes) (now : Instant) :
    (c.defer pending).emit datagram now = (c.emit datagram now).defer pending := by
  simp [emit, defer]

@[simp] theorem emitControl_defer (body : ControlBody) (now : Instant) :
    (c.defer pending).emitControl body now = (c.emitControl body now).defer pending := by
  unfold emitControl
  simp only [defer_link, defer_wireTs]
  split <;> simp

@[simp] theorem clearArqTimers_defer : (c.defer pending).clearArqTimers = c.clearArqTimers.defer pending := by
  simp [clearArqTimers, defer]

/-! ## Teardown -/

@[simp] theorem fail_defer : (c.defer pending).fail = c.fail.defer pending := rfl

@[simp] theorem clearClosing_defer : (c.defer pending).clearClosing = c.clearClosing.defer pending := rfl

@[simp] theorem sayShutdown_defer (now : Instant) :
    (c.defer pending).sayShutdown now = (c.sayShutdown now).defer pending := by
  unfold sayShutdown
  simp only [defer_link, defer_wireTs]
  split <;> simp

@[simp] theorem finalizeShutdown_defer (now : Instant) :
    (c.defer pending).finalizeShutdown now = (c.finalizeShutdown now).defer pending := by
  simp [finalizeShutdown]

@[simp] theorem finishCloseIfDrained_defer (now : Instant) :
    (c.defer pending).finishCloseIfDrained now = (c.finishCloseIfDrained now).defer pending := by
  exact ite_defer (finalizeShutdown_defer pending c now) rfl

@[simp] theorem onLingerTimer_defer (now : Instant) :
    (c.defer pending).onLingerTimer now = (c.onLingerTimer now).defer pending := by
  exact ite_defer (finalizeShutdown_defer pending c now) rfl

@[simp] theorem beginClose_defer : (c.defer pending).beginClose = c.beginClose.defer pending :=
  output_defer pending { c with link := { c.link with closing := true } } _

theorem close_defer (now : Instant) : (c.defer pending).close now = (c.close now).defer pending := by
  refine ite_defer rfl (ite_defer rfl (ite_defer ?_ ?_))
  · exact finalizeShutdown_defer pending c now
  · exact beginClose_defer pending c

/-! ## Keys -/

theorem countAndAnnounce_defer : (c.defer pending).countAndAnnounce = c.countAndAnnounce.defer pending := by
  unfold countAndAnnounce kmPreannounce kmRefresh
  dsimp only [defer_config, defer_keys]
  split
  · exact ite_defer rfl rfl
  · rfl

theorem accountKeyAndMaybeRotate_defer :
    (c.defer pending).accountKeyAndMaybeRotate = c.accountKeyAndMaybeRotate.defer pending := by
  unfold accountKeyAndMaybeRotate
  simp only [defer_keys]
  split
  · rfl
  · next crypto hcrypto =>
    have hrotate : (c.defer pending).rotateIfDue crypto = (c.rotateIfDue crypto).defer pending := by
      exact ite_defer rfl rfl
    rw [hrotate, countAndAnnounce_defer]

@[simp] theorem emitKm_defer (subtype : UInt16) (cif : Bytes) (now : Instant) :
    (c.defer pending).emitKm subtype cif now = (c.emitKm subtype cif now).defer pending :=
  emitControl_defer pending c _ now

@[simp] theorem setCrypto_defer (crypto : SessionCrypto) :
    (c.defer pending).setCrypto crypto = (c.setCrypto crypto).defer pending := rfl

@[simp] theorem awaitKmRsp_defer (km : Bytes) :
    (c.defer pending).awaitKmRsp km = (c.awaitKmRsp km).defer pending := rfl

theorem provideRekey_defer (P : Primitives) (sek : Bytes) (now : Instant) :
    (c.defer pending).provideRekey P sek now = (c.provideRekey P sek now).defer pending := by
  unfold provideRekey
  refine ite_defer rfl ?_
  simp only [defer_keys, defer_config]
  split
  · split
    · rfl
    · split <;> simp
  · rfl

theorem onKmRsp_defer (cif : Bytes) : (c.defer pending).onKmRsp cif = (c.onKmRsp cif).defer pending := by
  exact ite_defer rfl rfl

@[simp] theorem resendPendingKm_defer (now : Instant) :
    (c.defer pending).resendPendingKm now = (c.resendPendingKm now).defer pending := by
  unfold resendPendingKm
  simp only [defer_keys]
  split
  · rfl
  · exact ite_defer rfl (emitKm_defer pending { c with keys := _ } _ _ now)

theorem onKmReq_defer (P : Primitives) (cif : Bytes) (now : Instant) :
    (c.defer pending).onKmReq P cif now = (c.onKmReq P cif now).defer pending := by
  unfold onKmReq
  simp only [defer_keys, defer_config]
  split
  · split <;> simp
  · rfl

/-! ## The sender -/

@[simp] theorem armExp_defer : (c.defer pending).armExp = c.armExp.defer pending :=
  output_defer pending c _

theorem transmit_defer (stored : DataPacket) (now : Instant) :
    (c.defer pending).transmit stored now = (c.transmit stored now).defer pending := by
  have hstore : (c.defer pending).storePacket stored = (c.storePacket stored).defer pending := rfl
  have hparity : ∀ (d : Connection) parity, (d.defer pending).emitParityIfFull stored.seq parity now
      = (d.emitParityIfFull stored.seq parity now).defer pending := by
    intro d parity
    cases parity with
    | none => rfl
    | some parity => exact emit_defer pending d _ now
  have hadvance : ∀ d : Connection, (d.defer pending).advanceSeq stored = (d.advanceSeq stored).defer pending :=
    fun _ => rfl
  unfold transmit
  simp only [defer_tx, hstore, emit_defer, hparity, hadvance]
  exact ite_defer (armExp_defer pending _) rfl

@[simp] theorem sendData_defer (P : Primitives) (fragment : Fragment) (now : Instant) :
    (c.defer pending).sendData P fragment now = (c.sendData P fragment now).defer pending := by
  have hseal : ∀ (d : Connection) packet, sealPacket P (d.defer pending) packet = sealPacket P d packet :=
    fun _ _ => rfl
  have hpacket : ∀ d : Connection, (d.defer pending).dataPacket fragment now = d.dataPacket fragment now :=
    fun _ => rfl
  unfold sendData
  simp only [accountKeyAndMaybeRotate_defer, hseal, hpacket]
  generalize c.accountKeyAndMaybeRotate = d
  split
  · rfl
  · next stored calls _ => exact transmit_defer pending ({ d with tx := _ }.record calls) stored now

@[simp] theorem setQueue_defer (fragments : List Fragment) :
    (c.defer pending).setQueue fragments = (c.setQueue fragments).defer pending := rfl

@[simp] theorem setNextSend_defer (t : Option Instant) :
    (c.defer pending).setNextSend t = (c.setNextSend t).defer pending := rfl

theorem paceLoop_defer (P : Primitives) (period : Duration) (now : Instant) (budget : ℕ) :
    paceLoop P period now budget (c.defer pending)
      = ((paceLoop P period now budget c).1.defer pending, (paceLoop P period now budget c).2) := by
  induction budget generalizing c with
  | zero => rfl
  | succ budget ih =>
    have hrelease : ∀ fragment rest, (c.defer pending).releaseOne P fragment rest period now
        = (c.releaseOne P fragment rest period now).defer pending := by
      intro fragment rest
      simp only [releaseOne, setQueue_defer, sendData_defer, setNextSend_defer, defer_tx]
    unfold paceLoop
    rw [defer_tx]
    by_cases hwait : c.tx.nextSend.any (now < ·) = true
    · rw [if_pos hwait, if_pos hwait]
    · rw [if_neg hwait, if_neg hwait]
      cases c.tx.sendQueue with
      | nil => rfl
      | cons fragment rest =>
        dsimp only
        rw [hrelease, ih]

theorem release_defer (P : Primitives) (period : Duration) (now : Instant) :
    (c.defer pending).release P period now = (c.release P period now).defer pending := by
  unfold release
  rw [paceLoop_defer]
  exact ite_defer rfl rfl

@[simp] theorem pace_defer (P : Primitives) (now : Instant) :
    (c.defer pending).pace P now = (c.pace P now).defer pending := by
  unfold pace schedulePacing
  simp only [defer_tx]
  split
  · rfl
  · rw [release_defer]
    simp only [defer_tx, output_defer]
    exact ite_defer (finishCloseIfDrained_defer pending _ now) rfl

@[simp] theorem dropTooLate_defer (now : Instant) :
    (c.defer pending).dropTooLate now = (c.dropTooLate now).defer pending := by
  have hshed : (c.defer pending).shed now = c.shed now := rfl
  have hdrop : (c.defer pending).dropShed now = (c.dropShed now).defer pending := rfl
  unfold dropTooLate clearExpIfEmpty
  rw [hshed, hdrop]
  split
  · simp only [emitControl_defer, defer_tx]
    exact ite_defer (output_defer pending _ _) rfl
  · rfl

theorem retransmitOne_defer (gate : Duration) (start stop seq : SeqNumber) (now : Instant) :
    (c.defer pending).retransmitOne gate start stop seq now
      = (c.retransmitOne gate start stop seq now).defer pending := by
  have hrecent : (c.defer pending).resentRecently gate seq now = c.resentRecently gate seq now := rfl
  unfold retransmitOne
  rw [hrecent]
  refine ite_defer ?_ rfl
  simp only [defer_tx]
  split
  · rfl
  · next packet _ =>
    have hemit := emit_defer pending (c.countRetransmit packet) (encodeRetransmit packet) now
    exact congrArg (·.markRetransmitted seq now) hemit

@[simp] theorem retransmitRange_defer (start stop : SeqNumber) (now : Instant) :
    (c.defer pending).retransmitRange start stop now = (c.retransmitRange start stop now).defer pending := by
  unfold retransmitRange
  simp only [defer_tx, defer_rtt]
  split
  · generalize visited _ _ = seqs
    have hfold : ∀ d : Connection, seqs.foldl (fun d seq => d.retransmitOne c.rtt.rtt start stop seq now)
        (d.defer pending)
          = (seqs.foldl (fun d seq => d.retransmitOne c.rtt.rtt start stop seq now) d).defer pending := by
      induction seqs with
      | nil => exact fun _ => rfl
      | cons seq seqs ih =>
        intro d
        rw [List.foldl_cons, List.foldl_cons, retransmitOne_defer]
        exact ih _
    exact hfold c
  · rfl

theorem retransmitAll_defer (now : Instant) :
    (c.defer pending).retransmitAll now = (c.retransmitAll now).defer pending := by
  unfold retransmitAll
  simp only [defer_tx]
  split <;> simp

theorem rearmExp_defer : (c.defer pending).rearmExp = c.rearmExp.defer pending := by
  exact ite_defer (output_defer pending c _) (armExp_defer pending c)

theorem onAck_defer (ack : Ack) (now : Instant) :
    (c.defer pending).onAck ack now = (c.onAck ack now).defer pending := by
  have hacked : (c.defer pending).releaseAcked ack = (c.releaseAcked ack).defer pending := rfl
  have hreset : ∀ d : Connection, (d.defer pending).resetBackoff = d.resetBackoff.defer pending := fun _ => rfl
  unfold onAck answerAck
  simp only [hacked, dropTooLate_defer, hreset, rearmExp_defer, finishCloseIfDrained_defer]
  exact ite_defer (emitControl_defer pending _ _ now) rfl

theorem onNak_defer (loss : List LossRange) (now : Instant) :
    (c.defer pending).onNak loss now = (c.onNak loss now).defer pending := by
  have hcount : (c.defer pending).countNak = c.countNak.defer pending := rfl
  unfold onNak
  rw [hcount, dropTooLate_defer]
  generalize c.countNak.dropTooLate now = d
  induction loss generalizing d with
  | nil => rfl
  | cons range loss ih =>
    rw [List.foldl_cons, List.foldl_cons, retransmitRange_defer]
    exact ih _

theorem onExpTimer_defer (now : Instant) :
    (c.defer pending).onExpTimer now = (c.onExpTimer now).defer pending := by
  have hback : ∀ d : Connection, (d.defer pending).backOff = d.backOff.defer pending := fun _ => rfl
  unfold onExpTimer
  refine ite_defer rfl ?_
  simp only [dropTooLate_defer, retransmitAll_defer, hback, armExp_defer]
  exact ite_defer rfl rfl

/-! ## The receiver -/

theorem enterConnected_defer (negotiated : Negotiated) (now : Instant) :
    (c.defer pending).enterConnected negotiated now = (c.enterConnected negotiated now).defer pending := by
  simp [enterConnected, output, event, defer, nakInterval]

theorem deliverPacket_defer (packet : DataPacket) :
    (c.defer pending).deliverPacket packet = (c.deliverPacket packet).defer pending := by
  unfold deliverPacket
  simp only [defer_rx]
  split <;> rfl

theorem deliverLoop_defer (now : Instant) (fuel : ℕ) :
    deliverLoop now fuel (c.defer pending) = (deliverLoop now fuel c).defer pending := by
  induction fuel generalizing c with
  | zero => rfl
  | succ fuel ih =>
    have hplay : ∀ timestamp, (c.defer pending).tsbpdPlayTime timestamp = c.tsbpdPlayTime timestamp := fun _ => rfl
    have hpopped : ∀ packet rest, (c.defer pending).deliverPopped packet rest
        = (c.deliverPopped packet rest).defer pending :=
      fun packet _ => deliverPacket_defer pending { c with rx := _ } packet
    unfold deliverLoop
    rw [defer_rx]
    cases c.rx.recvBuffer.peek with
    | none => exact output_defer pending c _
    | some first =>
      dsimp only
      rw [hplay]
      cases c.tsbpdPlayTime first.2 with
      | none => rfl
      | some playTime =>
        refine ite_defer (output_defer pending c _) ?_
        cases c.rx.recvBuffer.pop with
        | none => exact ih c
        | some popped =>
          dsimp only
          rw [hpopped, ih]

@[simp] theorem deliverTsbpd_defer (now : Instant) :
    (c.defer pending).deliverTsbpd now = (c.deliverTsbpd now).defer pending :=
  deliverLoop_defer pending c now _

theorem flushLoop_defer (fuel : ℕ) : flushLoop fuel (c.defer pending) = (flushLoop fuel c).defer pending := by
  induction fuel generalizing c with
  | zero => rfl
  | succ fuel ih =>
    have hset : ∀ rest, (c.defer pending).setRecvBuffer rest = (c.setRecvBuffer rest).defer pending := fun _ => rfl
    unfold flushLoop
    rw [defer_rx]
    cases c.rx.recvBuffer.popInOrder with
    | none => rfl
    | some popped =>
      dsimp only
      rw [hset, deliverPacket_defer, ih]

theorem onShutdown_defer : (c.defer pending).onShutdown = c.onShutdown.defer pending := by
  unfold onShutdown
  rw [defer_rx, flushLoop_defer, fail_defer, clearArqTimers_defer, event_defer]

@[simp] theorem sendLightAck_defer (now : Instant) :
    (c.defer pending).sendLightAck now = (c.sendLightAck now).defer pending :=
  emitControl_defer pending c.noteLightAck _ now

@[simp] theorem sendNak_defer (missing : List (SeqNumber × SeqNumber)) (now : Instant) :
    (c.defer pending).sendNak missing now = (c.sendNak missing now).defer pending := by
  have hemit := emitControl_defer pending c.countNakSent (.nak (missing.map fun r => ⟨r.1, r.2⟩)) now
  exact congrArg (·.noteNak now) hemit

@[simp] theorem sendFullAck_defer (now : Instant) :
    (c.defer pending).sendFullAck now = (c.sendFullAck now).defer pending :=
  emitControl_defer pending (c.noteFullAck now) _ now

theorem onAckTimer_defer (now : Instant) :
    (c.defer pending).onAckTimer now = (c.onAckTimer now).defer pending := by
  unfold onAckTimer
  refine ite_defer rfl ?_
  simp only [output_defer]
  exact ite_defer rfl (sendFullAck_defer pending _ now)

theorem onNakTimer_defer (now : Instant) :
    (c.defer pending).onNakTimer now = (c.onNakTimer now).defer pending := by
  have hinterval : (c.defer pending).nakInterval = c.nakInterval := rfl
  unfold onNakTimer
  refine ite_defer rfl ?_
  simp only [hinterval, output_defer]
  exact ite_defer rfl (ite_defer rfl (sendNak_defer pending _ _ now))

theorem onAckack_defer (ackNumber : UInt32) (now : Instant) :
    (c.defer pending).onAckack ackNumber now = (c.onAckack ackNumber now).defer pending := by
  unfold onAckack
  simp only [defer_rx]
  split
  · rfl
  · split <;> rfl

theorem reportGaps_defer (now : Instant) :
    (c.defer pending).reportGaps now = (c.reportGaps now).defer pending := by
  unfold reportGaps
  refine ite_defer (ite_defer ?_ rfl) rfl
  rw [defer_rx, sendNak_defer]
  rfl

theorem afterInsert_defer (data : DataPacket) (recvBuffer : RecvBuffer) (now : Instant) :
    (c.defer pending).afterInsert data recvBuffer now = (c.afterInsert data recvBuffer now).defer pending := by
  have harrival : (c.defer pending).recordArrival data recvBuffer now
      = (c.recordArrival data recvBuffer now).defer pending := rfl
  have hanchor : ∀ d : Connection, (d.defer pending).anchorTsbpd data.timestamp now
      = (d.anchorTsbpd data.timestamp now).defer pending := by
    intro d
    unfold anchorTsbpd
    simp only [defer_rx]
    split <;> rfl
  have hdrift : ∀ d : Connection, (d.defer pending).sampleDrift data now = (d.sampleDrift data now).defer pending := by
    intro d
    have hexpected : (d.defer pending).tsbpdExpectedArrival data.timestamp = d.tsbpdExpectedArrival data.timestamp :=
      rfl
    unfold sampleDrift
    rw [hexpected]
    split <;> rfl
  have hlight : ∀ d : Connection, (d.defer pending).lightAckIfDue now = (d.lightAckIfDue now).defer pending :=
    fun d => ite_defer (sendLightAck_defer pending d.countTowardsAck now) rfl
  unfold afterInsert
  simp only [harrival, hanchor, hdrift, deliverTsbpd_defer, hlight, reportGaps_defer]

@[simp] theorem insertData_defer (P : Primitives) (data : DataPacket) (now : Instant) :
    (c.defer pending).insertData P data now = (c.insertData P data now).defer pending := by
  have hopen : (c.defer pending).openPacket P data = c.openPacket P data := rfl
  unfold insertData
  refine ite_defer rfl ?_
  rw [hopen]
  cases c.openPacket P data with
  | none => rfl
  | some opened =>
    simp only [record_defer, defer_rx]
    exact ite_defer (afterInsert_defer pending (c.record opened.2) opened.1 _ now) rfl

theorem injectAll_defer (P : Primitives) (recovered : List RecoveredPacket) (now : Instant) :
    (c.defer pending).injectAll P recovered now = (c.injectAll P recovered now).defer pending := by
  unfold injectAll
  induction recovered generalizing c with
  | nil => rfl
  | cons rp recovered ih =>
    have hinject : (c.defer pending).injectRecovered P rp now = (c.injectRecovered P rp now).defer pending := by
      unfold injectRecovered
      rw [defer_link]
      cases rebuilt c.link.peerSocketId rp with
      | none => rfl
      | some packet => exact insertData_defer pending c.countRecovered P packet now
    rw [List.foldl_cons, List.foldl_cons, hinject, ih]

theorem onData_defer (P : Primitives) (data : DataPacket) (now : Instant) :
    (c.defer pending).onData P data now = (c.onData P data now).defer pending := by
  have hset : ∀ fec, (c.defer pending).setFecRecv fec = (c.setFecRecv fec).defer pending := fun _ => rfl
  unfold onData
  rw [defer_rx]
  cases c.rx.fecRecv with
  | none => exact insertData_defer pending c P data now
  | some fec =>
    simp only [hset, insertData_defer, injectAll_defer]
    exact ite_defer rfl rfl

theorem onDropreq_defer (first last : SeqNumber) (now : Instant) :
    (c.defer pending).onDropreq first last now = (c.onDropreq first last now).defer pending := by
  have hreplace : ∀ recvBuffer skipped, (c.defer pending).replaceBuffer recvBuffer skipped
      = (c.replaceBuffer recvBuffer skipped).defer pending := fun _ _ => rfl
  unfold onDropreq skipRange
  rw [defer_rx, hreplace, deliverTsbpd_defer]

theorem onKeepaliveTimer_defer (now : Instant) :
    (c.defer pending).onKeepaliveTimer now = (c.onKeepaliveTimer now).defer pending := by
  unfold onKeepaliveTimer
  refine ite_defer rfl ?_
  rw [resendPendingKm_defer]
  generalize c.resendPendingKm now = d
  have hsay := @ite_defer pending (keepalivePeriod ≤ now.saturatingDurationSince d.lastSent) _ _ _ _ d
    (emitControl_defer pending d .keepalive now) rfl
  exact (congrArg (·.output (.setTimer .keepalive keepalivePeriod)) hsay).trans (output_defer pending _ _)

theorem onPeerIdleTimer_defer (now : Instant) :
    (c.defer pending).onPeerIdleTimer now = (c.onPeerIdleTimer now).defer pending := by
  unfold onPeerIdleTimer
  refine ite_defer rfl (ite_defer ?_ (output_defer pending c _))
  rw [fail_defer, clearArqTimers_defer, event_defer]

/-! ## The handshake -/

theorem emitHandshake_defer (dest : SocketId) (hs : Handshake) (now : Instant) :
    (c.defer pending).emitHandshake dest hs now = (c.emitHandshake dest hs now).defer pending := by
  unfold emitHandshake
  rw [defer_wireTs]
  split
  · rfl
  · next bytes _ =>
    have hsay := output_defer pending { c with link := { c.link with lastHandshake := some bytes } }
      (.sendDatagram bytes)
    exact (congrArg (·.output (.setTimer .handshake synInterval)) hsay).trans (output_defer pending _ _)

theorem onHandshakePacket_defer (packet : Packet) (now : Instant) :
    (c.defer pending).onHandshakePacket packet now = (c.onHandshakePacket packet now).defer pending := by
  unfold onHandshakePacket
  split
  · split
    · rw [fail_defer, output_defer, event_defer]
    · refine ite_defer ?_ ?_
      · exact ite_defer rfl (emitHandshake_defer pending (c.enterConclusion _) _ _ now)
      · refine ite_defer rfl ?_
        rw [output_defer, enterConnected_defer]
        rfl
  · rfl

theorem onHandshakeTimer_defer (now : Instant) :
    (c.defer pending).onHandshakeTimer now = (c.onHandshakeTimer now).defer pending := by
  unfold onHandshakeTimer
  refine ite_defer rfl (ite_defer ?_ ?_)
  · rw [fail_defer, output_defer, event_defer]
  · rw [defer_link]
    split
    · rw [output_defer, output_defer]
    · rfl

/-! ## Calls -/

theorem onConnectedPacket_defer (P : Primitives) (packet : Packet) (now : Instant) :
    (c.defer pending).onConnectedPacket P packet now = (c.onConnectedPacket P packet now).defer pending := by
  cases packet with
  | data data => exact onData_defer pending c P data now
  | control ctrl =>
    obtain ⟨timestamp, destSocketId, body⟩ := ctrl
    cases body with
    | ack ack => exact onAck_defer pending c ack now
    | ackAck number => exact onAckack_defer pending c number now
    | nak loss => exact onNak_defer pending c loss now
    | shutdown => exact onShutdown_defer pending c
    | dropReq message first last => exact onDropreq_defer pending c first last now
    | keepalive => rfl
    | congestionWarning => rfl
    | peerError code => rfl
    | raw ctype subtype info cif =>
      cases ctype with
      | userDefined =>
        exact ite_defer (onKmReq_defer pending c P cif now) (ite_defer (onKmRsp_defer pending c cif) rfl)
      | _ => rfl
    | handshake hs =>
      simp only [onConnectedPacket]
      rw [defer_side, defer_link]
      split
      · exact ite_defer (output_defer pending c _) rfl
      · rfl

theorem feedRecvBuf_defer (P : Primitives) (datagram : Bytes) (now : Instant) :
    (c.defer pending).feedRecvBuf P datagram now = (c.feedRecvBuf P datagram now).defer pending := by
  unfold feedRecvBuf
  split
  · rfl
  · rw [defer_link]
    split
    · exact onHandshakePacket_defer pending c _ now
    · exact onHandshakePacket_defer pending c _ now
    · exact onConnectedPacket_defer pending { c with lastRecvAny := now } P _ now
    · rfl

theorem handleTimer_defer (P : Primitives) (id : TimerId) (now : Instant) :
    (c.defer pending).handleTimer P id now = (c.handleTimer P id now).defer pending := by
  cases id with
  | handshake => exact onHandshakeTimer_defer pending c now
  | ack => exact onAckTimer_defer pending c now
  | nak => exact onNakTimer_defer pending c now
  | exp => exact onExpTimer_defer pending c now
  | tsbpd => exact deliverTsbpd_defer pending c now
  | sndPacing => exact pace_defer pending c P now
  | linger => exact onLingerTimer_defer pending c now
  | keepalive => exact onKeepaliveTimer_defer pending c now
  | peerIdle => exact onPeerIdleTimer_defer pending c now

theorem submit_defer (P : Primitives) (payload : Bytes) (now : Instant) :
    (c.defer pending).submit P payload now = (c.submit P payload now).defer pending := by
  have hfold : ∀ (fragments : List Fragment) (d : Connection),
      fragments.foldl (fun d fragment => d.sendData P fragment now) (d.defer pending)
        = (fragments.foldl (fun d fragment => d.sendData P fragment now) d).defer pending := by
    intro fragments
    induction fragments with
    | nil => exact fun _ => rfl
    | cons fragment fragments ih =>
      intro d
      rw [List.foldl_cons, List.foldl_cons, sendData_defer]
      exact ih _
  unfold submit
  exact ite_defer (hfold _ c.countMessage) (pace_defer pending (c.countMessage.enqueue _) P now)

theorem send_defer (P : Primitives) (payload : Bytes) (now : Instant) :
    (c.defer pending).send P payload now = (c.send P payload now).map (defer pending) := by
  unfold send
  rw [defer_link, submit_defer]
  by_cases hrefused : c.link.closing = true ∨ c.link.state ≠ .connected
  · rw [if_pos hrefused, if_pos hrefused]
    rfl
  · rw [if_neg hrefused, if_neg hrefused]
    rfl

theorem perform_defer (P : Primitives) (call : Call) (now : Instant) :
    (c.defer pending).perform P call now = (c.perform P call now).defer pending := by
  cases call with
  | feedRecvBuf datagram => exact feedRecvBuf_defer pending c P datagram now
  | handleTimer id => exact handleTimer_defer pending c P id now
  | send payload =>
    have hperform : ∀ d : Connection, d.perform P (.send payload) now = (d.send P payload now).toOption.getD d :=
      fun _ => rfl
    rw [hperform, hperform, send_defer]
    cases c.send P payload now <;> rfl
  | close => exact close_defer pending c now
  | provideRekey sek => exact provideRekey_defer pending c P sek now
  | pollEvent => rfl

end Connection

end Srtrust
