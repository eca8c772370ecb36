import Srtrust.Session.Timeline

/-! # Acknowledgements that wait for an answer

A full ACK is remembered with the time at which it went out until its ACKACK comes back. No other work of
a connection adds to that list. -/
namespace Srtrust
open BigEndian
set_option autoImplicit false

namespace Connection

/-- Work at `now` that adds no other acknowledgement to those that wait for an answer than one sent at
`now`. -/
structure Pends (now : Instant) (c c' : Connection) : Prop where
  sent : ∀ p ∈ c'.rx.pendingAcks, p ∈ c.rx.pendingAcks ∨ p.2 = now

namespace Pends

variable {now : Instant} {a b c c' : Connection}

theorem ofEq (h : c'.rx.pendingAcks = c.rx.pendingAcks) : Pends now c c' :=
  ⟨fun _ hp => .inl (h ▸ hp)⟩

theorem ofRx (h : c'.rx = c.rx) : Pends now c c' := .ofEq (by rw [h])

theorem refl (c : Connection) : Pends now c c := .ofEq rfl

theorem trans (h : Pends now a b) (h' : Pends now b c) : Pends now a c := by
  refine ⟨fun p hp => ?_⟩
  rcases h'.sent p hp with hp | hp
  · exact h.sent p hp
  · exact .inr hp

end Pends

theorem LinkStep.pends {now : Instant} {c c' : Connection} (h : LinkStep c c') : Pends now c c' := .ofRx h.rx

theorem TxStep.pends {now : Instant} {c c' : Connection} (h : TxStep c c') : Pends now c c' := .ofRx h.rx

theorem KeyStep.pends {now : Instant} {c c' : Connection} (h : KeyStep c c') : Pends now c c' := .ofRx h.rx

section Pending

variable (P : Primitives) (now : Instant)

theorem deliverPopped_pends (c : Connection) (packet : DataPacket) (rest : RecvBuffer) :
    Pends now c (c.deliverPopped packet rest) := by
  unfold deliverPopped deliverPacket
  dsimp only
  split <;> exact .ofEq rfl

theorem deliverTsbpd_pends (c : Connection) : Pends now c (c.deliverTsbpd now) :=
  deliverTsbpd_rule (fun d o _ h => h.trans (LinkStep.output d o).pends)
    (fun d packet rest _ h => h.trans (deliverPopped_pends now d packet rest)) now (.refl c)

theorem onShutdown_pends (c : Connection) : Pends now c c.onShutdown := by
  have hflush : Pends now c (flushLoop (c.rx.recvBuffer.slots.length + 1) c) :=
    flushLoop_rule (fun d packet rest _ h => h.trans (deliverPopped_pends now d packet rest)) _ (.refl c)
  exact hflush.trans (((fail_linkStep _).trans (clearArqTimers_linkStep _)).trans (.event _ _ id)).pends

theorem arrived_pends (c : Connection) (data : DataPacket) (b : RecvBuffer) :
    Pends now c (c.arrived data b now) := by
  have hrecorded : (c.recordArrival data b now).rx.pendingAcks = c.rx.pendingAcks := by
    unfold recordArrival
    dsimp only
    obtain ⟨_, _, _, he⟩ := trackReorder_eq
      { c.rx with
        recvBuffer := b
        stats :=
          { c.rx.stats with
            packetsReceived := c.rx.stats.packetsReceived + 1
            bytesReceived := c.rx.stats.bytesReceived + data.payload.length } }
      data.seq data.retransmitted
    rw [he]
  have hanchored : ((c.recordArrival data b now).anchorTsbpd data.timestamp now).rx.pendingAcks
      = (c.recordArrival data b now).rx.pendingAcks := by
    unfold anchorTsbpd
    split <;> rfl
  unfold arrived sampleDrift
  split <;> exact .ofEq (hanchored.trans hrecorded)

theorem lightAckIfDue_pends (c : Connection) : Pends now c (c.lightAckIfDue now) := by
  have hcount : Pends now c c.countTowardsAck := .ofEq rfl
  have hnote : Pends now c.countTowardsAck c.countTowardsAck.noteLightAck := .ofEq rfl
  unfold lightAckIfDue
  split
  · exact (hcount.trans hnote).trans (LinkStep.emitControl _ _ now).pends
  · exact hcount

theorem sendNak_pends (c : Connection) (missing : List (SeqNumber × SeqNumber)) :
    Pends now c (c.sendNak missing now) := by
  have hcount : Pends now c c.countNakSent := .ofEq rfl
  have hnote : ∀ d : Connection, Pends now d (d.noteNak now) := fun _ => .ofEq rfl
  exact (hcount.trans (LinkStep.emitControl _ _ now).pends).trans (hnote _)

theorem reportGaps_pends (c : Connection) : Pends now c (c.reportGaps now) := by
  have hloss : ∀ (d : Connection) missing, Pends now d (d.setReportedLoss missing) := fun _ _ => .ofEq rfl
  unfold reportGaps
  dsimp only
  split
  · split
    · exact (sendNak_pends now c _).trans (hloss _ _)
    · exact .refl c
  · exact hloss c _

theorem insertData_pends (c : Connection) (data : DataPacket) : Pends now c (c.insertData P data now) := by
  have hrecord : ∀ ts, Pends now c (c.record ts) := fun _ => .ofEq rfl
  unfold insertData
  split
  · exact .ofEq rfl
  · split
    · exact .ofEq rfl
    · next opened calls _ =>
      dsimp only
      split
      · rw [afterInsert_eq]
        exact ((((hrecord calls).trans (arrived_pends now _ opened _)).trans (deliverTsbpd_pends now _)).trans
          (lightAckIfDue_pends now _)).trans (reportGaps_pends now _)
      · exact (hrecord calls).trans (.ofEq rfl)

theorem injectAll_pends (recovered : List RecoveredPacket) (c : Connection) :
    Pends now c (c.injectAll P recovered now) := by
  unfold injectAll
  induction recovered generalizing c with
  | nil => exact .refl c
  | cons rp rest ih =>
    have hcount : Pends now c c.countRecovered := .ofEq rfl
    rw [List.foldl_cons]
    refine Pends.trans ?_ (ih _)
    unfold injectRecovered
    split
    · exact .refl c
    · exact hcount.trans (insertData_pends P now _ _)

theorem onData_pends (c : Connection) (data : DataPacket) : Pends now c (c.onData P data now) := by
  have hfec : ∀ fec, Pends now c (c.setFecRecv fec) := fun _ => .ofEq rfl
  unfold onData
  split
  · exact insertData_pends P now c data
  · dsimp only
    split
    · exact (hfec _).trans (injectAll_pends P now _ _)
    · exact ((hfec _).trans (insertData_pends P now _ data)).trans (injectAll_pends P now _ _)

theorem skipRange_pends (c : Connection) (first last : SeqNumber) : Pends now c (c.skipRange first last) := by
  have hreplace : ∀ b skipped, Pends now c (c.replaceBuffer b skipped) := fun _ _ => .ofEq rfl
  exact hreplace _ _

theorem onAckack_pends (c : Connection) (number : UInt32) : Pends now c (c.onAckack number now) := by
  unfold onAckack
  split
  · exact .refl c
  · split
    · exact .refl c
    · exact ⟨fun p hp => .inl (List.mem_of_mem_drop hp)⟩

theorem onAckTimer_pends (c : Connection) : Pends now c (c.onAckTimer now) := by
  have hnote : ∀ d : Connection, Pends now d (d.noteFullAck now) := by
    intro d
    refine ⟨fun p hp => ?_⟩
    have hmem : p ∈ d.rx.pendingAcks ++ [(d.rx.nextAckNumber, now)] := by
      unfold noteFullAck at hp
      dsimp only at hp
      split at hp
      · exact List.mem_of_mem_tail hp
      · exact hp
    rcases List.mem_append.mp hmem with hp | hp
    · exact .inl hp
    · rw [List.mem_singleton.mp hp]
      exact .inr rfl
  unfold onAckTimer
  split
  · exact .refl c
  · refine (LinkStep.output c (.setTimer .ack ackInterval)).pends.trans ?_
    dsimp only
    split
    · exact .refl _
    · exact (hnote _).trans (LinkStep.emitControl _ _ now).pends

theorem onNakTimer_pends (c : Connection) : Pends now c (c.onNakTimer now) := by
  unfold onNakTimer
  split
  · exact .refl c
  · refine (LinkStep.output c (.setTimer .nak c.nakInterval)).pends.trans ?_
    dsimp only
    split
    · exact .refl _
    · split
      · exact .refl _
      · exact sendNak_pends now _ _

theorem pace_pends (c : Connection) : Pends now c (c.pace P now) := by
  rcases pace_cases P c now with h | ⟨d, hd, h⟩
  · rw [h]
    exact .refl c
  · rw [h]
    exact hd.pends.trans (schedulePacing_linkStep d now).pends

theorem onConnectedPacket_pends (c : Connection) (packet : Packet) :
    Pends now c (c.onConnectedPacket P packet now) := by
  cases packet with
  | data data => exact onData_pends P now c data
  | control ctrl =>
    obtain ⟨timestamp, destSocketId, body⟩ := ctrl
    cases body with
    | ack a =>
      have hack : Pends now c (c.onAck a now) := by
        rw [onAck_eq]
        exact (settleAck_feedback c a now).txStep.pends.trans
          ((finishCloseIfDrained_linkStep _ now).trans (answerAck_linkStep _ a now)).pends
      exact hack
    | ackAck number => exact onAckack_pends now c number
    | nak loss => exact (onNak_feedback c loss now).txStep.pends
    | shutdown => exact onShutdown_pends now c
    | dropReq message first last =>
      exact (skipRange_pends now c first last).trans (deliverTsbpd_pends now _)
    | keepalive => exact .refl c
    | congestionWarning => exact .refl c
    | peerError _ => exact .refl c
    | raw ctype subtype info cif =>
      cases ctype with
      | userDefined =>
        simp only [onConnectedPacket]
        split
        · exact (onKmReq_keyStep P c cif now).pends
        · split
          · exact (onKmRsp_keyStep c cif).pends
          · exact .refl c
      | _ => exact .refl c
    | handshake hs =>
      simp only [onConnectedPacket]
      split
      · split
        · exact (LinkStep.output c _).pends
        · exact .refl c
      · exact .refl c

theorem feedRecvBuf_pends (c : Connection) (datagram : Bytes) : Pends now c (c.feedRecvBuf P datagram now) := by
  unfold feedRecvBuf
  cases hd : Packet.decode datagram with
  | error _ => exact .refl c
  | ok packet =>
    have hhand : c.link.state = .induction ∨ c.link.state = .conclusion →
        Pends now c (c.onHandshakePacket packet now) := by
      intro hs
      rcases onHandshakePacket_linkStep c packet now hs with hlink | ⟨negotiated, -, he⟩
      · exact hlink.pends
      · rw [he]
        exact .ofEq rfl
    have hrecv : Pends now c { c with lastRecvAny := now } := .ofEq rfl
    cases hs : c.link.state with
    | induction => exact hhand (.inl hs)
    | conclusion => exact hhand (.inr hs)
    | connected => exact hrecv.trans (onConnectedPacket_pends P now _ packet)
    | failed => exact .refl c

theorem perform_pends (c : Connection) (call : Call) : Pends now c (c.perform P call now) := by
  cases call with
  | feedRecvBuf datagram => exact feedRecvBuf_pends P now c datagram
  | handleTimer id =>
    cases id with
    | handshake => exact (onHandshakeTimer_linkStep c now).pends
    | ack => exact onAckTimer_pends now c
    | nak => exact onNakTimer_pends now c
    | exp => exact (onExpTimer_feedback c now).txStep.pends
    | tsbpd => exact deliverTsbpd_pends now c
    | sndPacing => exact pace_pends P now c
    | linger => exact (onLingerTimer_linkStep c now).pends
    | keepalive =>
      have hkeep : Pends now c (c.onKeepaliveTimer now) := by
        rcases onKeepaliveTimer_eq c now with h | h
        · rw [h]
          exact .refl c
        · exact (resendPendingKm_keyStep c now).pends.trans h.pends
      exact hkeep
    | peerIdle => exact (onPeerIdleTimer_linkStep c now).pends
  | send payload =>
    rcases perform_send_cases P c payload now with h | ⟨-, -, h⟩
    · rw [h]
      exact .refl c
    · rw [h]
      rcases submit_cases P c payload now with hd | ⟨d, hd, h⟩
      · exact hd.pends
      · rw [h]
        exact hd.pends.trans (schedulePacing_linkStep d now).pends
  | close => exact (close_linkStep c now).pends
  | provideRekey sek => exact (provideRekey_keyStep P c sek now).pends
  | pollEvent => exact .ofEq rfl

end Pending

end Connection

end Srtrust
