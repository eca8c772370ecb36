import Srtrust.Session.Reception

/-! # What a call says

Once the handshake is over a connection keeps what it agreed on. The only handshake it ever
sends is the one it has already sent; everything else it says is data or another control
packet. Before that it does nothing but run the handshake. -/
namespace Srtrust
open BigEndian
set_option autoImplicit false

/-- Packets whose header says handshake. -/
def Packet.IsHandshake : Packet → Prop
  | .control ctrl => ctrl.body.toWire.1 = ControlType.handshake.toRaw
  | .data _ => False

/-- The datagram decodes to a conclusion. -/
def Concludes (datagram : Bytes) (hs : Handshake) : Prop :=
  ∃ ctrl, Packet.decode datagram = .ok (.control ctrl) ∧ ctrl.body = .handshake hs
    ∧ hs.handshakeType = .conclusion

/-- A control packet that decodes to a handshake was written as one. -/
theorem encodeControl_handshake {body : ControlBody} {timestamp : Timestamp} {dest : SocketId}
    {datagram : Bytes} {ctrl : ControlPacket} {hs : Handshake}
    (henc : encodeControl dest timestamp body = some datagram)
    (hdec : Packet.decode datagram = .ok (.control ctrl)) (hbody : ctrl.body = .handshake hs) :
    body.toWire.1 = ControlType.handshake.toRaw
      ∧ ∃ cif, body.encodeCif = some cif ∧ Handshake.decode cif = .ok hs := by
  simp only [encodeControl, Packet.encode, Option.bind_eq_bind, Option.bind_eq_some_iff] at henc
  obtain ⟨cif, hcif, hbytes⟩ := henc
  obtain rfl := Option.some.inj hbytes
  rw [Packet.decode_control _ _ _ _ (Packet.toWire_lt body)] at hdec
  obtain ⟨t, ht⟩ := body.toWire_type
  rw [ht] at hdec ⊢
  cases hd : ControlBody.decode t.toRaw body.toWire.2.1 body.toWire.2.2 cif with
  | error e => simp [hd] at hdec
  | ok body' =>
    simp only [hd, Except.ok.injEq, Packet.control.injEq] at hdec
    obtain rfl := hdec
    obtain rfl : body' = .handshake hs := hbody
    obtain ⟨rfl, hhs⟩ := ControlBody.handshake_of_decode hd
    exact ⟨rfl, cif, hcif, hhs⟩

/-- Nothing but a handshake is taken for a conclusion. -/
theorem not_concludes {datagram : Bytes} (h : Encodes (fun p => ¬ p.IsHandshake) datagram)
    (hs : Handshake) : ¬ Concludes datagram hs := by
  rintro ⟨ctrl, hdec, hbody, -⟩
  obtain ⟨packet, hp, henc⟩ := h
  cases packet with
  | data d =>
    obtain rfl := Option.some.inj henc
    rw [Packet.decode_data] at hdec
    simp at hdec
  | control sent =>
    obtain ⟨timestamp, dest, body⟩ := sent
    exact hp (encodeControl_handshake henc hdec hbody).1

/-- What a conclusion's reader makes of it: the sender's handshake, up to Stream IDs. -/
theorem concludes_like {h hs : Handshake} {timestamp : Timestamp} {dest : SocketId} {datagram : Bytes}
    (hw : ∀ e ∈ h.extensions, Handshake.WritableExtension e)
    (henc : encodeControl dest timestamp (.handshake h) = some datagram) (hc : Concludes datagram hs) :
    h.handshakeType = .conclusion ∧
      ∃ extensions, hs = { h with extensions } ∧ List.Forall₂ Handshake.Like h.extensions extensions := by
  obtain ⟨ctrl, hdec, hbody, htype⟩ := hc
  obtain ⟨-, cif, hcif, hhs⟩ := encodeControl_handshake henc hdec hbody
  obtain ⟨extensions, rfl, hlike⟩ := Handshake.decode_like hw hcif hhs
  exact ⟨htype, extensions, rfl, hlike⟩

/-- What the handshake settles, and the handshake packet that answers repeated requests. -/
def Link.agreed (l : Link) : SocketId × Duration × Option Bytes :=
  (l.peerSocketId, l.latency, l.lastHandshake)

namespace Connection

/-- Work that leaves the outcome of the handshake alone. -/
structure Speaks (c c' : Connection) : Prop where
  ident : c'.ident = c.ident
  agreed : c'.link.agreed = c.link.agreed
  state : c'.link.state = c.link.state ∨ c'.link.state = .failed
  outputs : ∃ os, c'.outputs = c.outputs ++ os ∧ ∀ d, .sendDatagram d ∈ os →
    Encodes (fun p => ¬ p.IsHandshake) d ∨ c.link.lastHandshake = some d

namespace Speaks

theorem refl (c : Connection) : Speaks c c := ⟨rfl, rfl, .inl rfl, [], by simp, by simp⟩

theorem trans {a b c : Connection} (h : Speaks a b) (h' : Speaks b c) : Speaks a c := by
  obtain ⟨os, ho, hos⟩ := h.outputs
  obtain ⟨os', ho', hos'⟩ := h'.outputs
  have hlast : b.link.lastHandshake = a.link.lastHandshake := congrArg (·.2.2) h.agreed
  refine ⟨h'.ident.trans h.ident, h'.agreed.trans h.agreed, ?_, os ++ os',
    by rw [ho', ho, List.append_assoc], ?_⟩
  · rcases h'.state with hs | hs
    · rw [hs]
      exact h.state
    · exact .inr hs
  · intro d hd
    rcases List.mem_append.mp hd with hd | hd
    · exact hos d hd
    · exact hlast ▸ hos' d hd

theorem established {c c' : Connection} (h : Speaks c c') (he : c.Established) : c'.Established := by
  rcases h.state with hs | hs
  · rw [Established, hs]
    exact he
  · exact .inr hs

/-- No output at all. -/
theorem same {c c' : Connection} (hi : c'.ident = c.ident) (ha : c'.link.agreed = c.link.agreed)
    (hs : c'.link.state = c.link.state ∨ c'.link.state = .failed) (ho : c'.outputs = c.outputs) :
    Speaks c c' :=
  ⟨hi, ha, hs, [], by simp [ho], by simp⟩

theorem output (c : Connection) (o : Output)
    (h : ∀ d, o = .sendDatagram d → Encodes (fun p => ¬ p.IsHandshake) d ∨ c.link.lastHandshake = some d) :
    Speaks c (c.output o) :=
  ⟨rfl, rfl, .inl rfl, [o], rfl, fun d hd => h d (List.mem_singleton.mp hd).symm⟩

theorem ofGrows {ev : Event → Prop} {ids : List TimerId} {kind : Packet → Prop} {tr : Trace → Prop}
    {c c' : Connection} (hi : c'.ident = c.ident) (hl : c'.link = c.link)
    (h : Grows ev ids (Encodes kind) tr c c') (hk : ∀ p, kind p → ¬ p.IsHandshake) : Speaks c c' := by
  obtain ⟨os, ho, hos⟩ := h.outputs
  refine ⟨hi, by rw [hl], .inl (by rw [hl]), os, ho, ?_⟩
  intro d hd
  obtain ⟨p, hp, henc⟩ := hos _ hd
  exact .inl ⟨p, hk p hp, henc⟩

end Speaks

theorem RxStep.speaks {c c' : Connection} (h : RxStep c c') : Speaks c c' :=
  .ofGrows h.ident h.link h.grows fun p hp => by
    rcases p with _ | ⟨_, _, _ | _ | _ | _ | _ | _ | _ | _ | _ | _⟩ <;>
      simp_all [Packet.IsReport, Packet.IsHandshake, ControlBody.toWire, ControlType.toRaw]

theorem TxStep.speaks {c c' : Connection} (h : TxStep c c') : Speaks c c' :=
  .ofGrows h.ident h.link h.grows fun p hp => by
    rcases p with _ | ⟨_, _, _ | _ | _ | _ | _ | _ | _ | _ | _ | _⟩ <;>
      simp_all [Packet.IsSending, ControlBody.IsDropReq, Packet.IsHandshake, ControlBody.toWire,
        ControlType.toRaw]

theorem KeyStep.speaks {c c' : Connection} (h : KeyStep c c') : Speaks c c' :=
  .ofGrows h.ident h.link h.grows fun p hp => by
    rcases p with _ | ⟨_, _, _ | _ | _ | _ | _ | _ | _ | _ | _ | ⟨_ | _⟩⟩ <;>
      simp_all [Packet.IsSignal, Packet.IsHandshake, ControlBody.toWire, ControlType.toRaw]

/-! ## Teardown -/

theorem fail_speaks (c : Connection) : Speaks c c.fail := .same rfl rfl (.inr rfl) rfl

theorem event_speaks (c : Connection) (e : Event) : Speaks c (c.event e) := .same rfl rfl (.inl rfl) rfl

theorem setTimer_speaks (c : Connection) (id : TimerId) (after : Duration) :
    Speaks c (c.output (.setTimer id after)) := .output c _ (by simp)

theorem clearTimer_speaks (c : Connection) (id : TimerId) : Speaks c (c.output (.clearTimer id)) :=
  .output c _ (by simp)

theorem clearArqTimers_speaks (c : Connection) : Speaks c c.clearArqTimers :=
  ⟨rfl, rfl, .inl rfl, arqTimers.map .clearTimer, rfl, by simp⟩

theorem finalizeShutdown_speaks (c : Connection) (now : Instant) :
    Speaks c (c.finalizeShutdown now) := by
  have h1 : Speaks c (c.sayShutdown now) := by
    unfold sayShutdown
    split
    · next bytes hb =>
      refine .output c _ fun d hd => .inl ⟨_, ?_, (Output.sendDatagram.inj hd) ▸ hb⟩
      simp [Packet.IsHandshake, ControlBody.toWire, ControlType.toRaw]
    · exact .same rfl rfl (.inl rfl) rfl
  have h2 : ∀ c : Connection, Speaks c c.clearClosing := fun _ => .same rfl rfl (.inl rfl) rfl
  exact ((((h1.trans (clearArqTimers_speaks _)).trans (clearTimer_speaks _ _)).trans (h2 _)).trans
    (fail_speaks _)).trans (event_speaks _ _)

theorem finishCloseIfDrained_speaks (c : Connection) (now : Instant) :
    Speaks c (c.finishCloseIfDrained now) := by
  unfold finishCloseIfDrained
  split
  · exact finalizeShutdown_speaks c now
  · exact .refl c

theorem onLingerTimer_speaks (c : Connection) (now : Instant) : Speaks c (c.onLingerTimer now) := by
  unfold onLingerTimer
  split
  · exact finalizeShutdown_speaks c now
  · exact .refl c

theorem close_speaks (c : Connection) (now : Instant) : Speaks c (c.close now) := by
  have hbegin : Speaks c c.beginClose :=
    ⟨rfl, rfl, .inl rfl, [.setTimer .linger c.config.linger], rfl, by simp⟩
  unfold close
  split
  · exact .refl c
  · split
    · exact (fail_speaks c).trans (event_speaks _ _)
    · split
      · exact finalizeShutdown_speaks c now
      · exact hbegin

theorem onShutdown_speaks (c : Connection) : Speaks c c.onShutdown :=
  (((flushLoop_rxStep _ c).speaks.trans (fail_speaks _)).trans (clearArqTimers_speaks _)).trans
    (event_speaks _ _)

/-! ## Sending -/

theorem schedulePacing_speaks (c : Connection) (now : Instant) : Speaks c (c.schedulePacing now) := by
  unfold schedulePacing
  split
  · exact (clearTimer_speaks c _).trans (finishCloseIfDrained_speaks _ now)
  · exact setTimer_speaks c _ _

theorem pace_speaks (P : Primitives) (c : Connection) (now : Instant) : Speaks c (c.pace P now) := by
  rcases pace_cases P c now with h | ⟨d, hd, h⟩
  · rw [h]
    exact .refl c
  · rw [h]
    exact hd.speaks.trans (schedulePacing_speaks d now)

theorem send_speaks (P : Primitives) (c : Connection) (payload : Bytes) (now : Instant) :
    Speaks c (c.perform P (.send payload) now) := by
  rcases perform_send_cases P c payload now with h | ⟨-, -, h⟩
  · rw [h]
    exact .refl c
  · rw [h]
    rcases submit_cases P c payload now with hd | ⟨d, hd, h⟩
    · exact hd.speaks
    · rw [h]
      exact hd.speaks.trans (schedulePacing_speaks d now)

/-! ## Timers and datagrams -/

theorem onAckTimer_speaks (c : Connection) (now : Instant) : Speaks c (c.onAckTimer now) := by
  unfold onAckTimer
  split
  · exact .refl c
  · refine (setTimer_speaks c .ack ackInterval).trans ?_
    dsimp only
    split
    · exact .refl _
    · exact (sendFullAck_rxStep _ now).speaks

theorem onNakTimer_speaks (c : Connection) (now : Instant) : Speaks c (c.onNakTimer now) := by
  unfold onNakTimer
  split
  · exact .refl c
  · refine (setTimer_speaks c .nak c.nakInterval).trans ?_
    dsimp only
    split
    · exact .refl _
    · split
      · exact .refl _
      · exact (sendNak_rxStep _ _ now).speaks

theorem onKeepaliveTimer_speaks (c : Connection) (now : Instant) :
    Speaks c (c.onKeepaliveTimer now) := by
  unfold onKeepaliveTimer
  split
  · exact .refl c
  · refine (resendPendingKm_keyStep c now).speaks.trans ?_
    dsimp only
    split
    · exact (KeyStep.emitControl _ .keepalive now fun _ _ => trivial).speaks.trans (setTimer_speaks _ _ _)
    · exact setTimer_speaks _ _ _

theorem onPeerIdleTimer_speaks (c : Connection) (now : Instant) : Speaks c (c.onPeerIdleTimer now) := by
  unfold onPeerIdleTimer
  split
  · exact .refl c
  · dsimp only
    split
    · exact ((fail_speaks c).trans (clearArqTimers_speaks _)).trans (event_speaks _ _)
    · exact setTimer_speaks c _ _

theorem onHandshakeTimer_speaks (c : Connection) (now : Instant) : Speaks c (c.onHandshakeTimer now) := by
  unfold onHandshakeTimer
  split
  · exact .refl c
  · split
    · exact ((fail_speaks c).trans (clearTimer_speaks _ _)).trans (event_speaks _ _)
    · split
      · next bytes hb =>
        exact (Speaks.output c _ fun d hd => .inr (Output.sendDatagram.inj hd ▸ hb)).trans
          (setTimer_speaks _ _ _)
      · exact .refl c

theorem handleTimer_speaks (P : Primitives) (c : Connection) (id : TimerId) (now : Instant) :
    Speaks c (c.handleTimer P id now) := by
  cases id with
  | handshake => exact onHandshakeTimer_speaks c now
  | ack => exact onAckTimer_speaks c now
  | nak => exact onNakTimer_speaks c now
  | exp => exact (onExpTimer_feedback c now).txStep.speaks
  | tsbpd => exact (deliverTsbpd_rxStep c now).speaks
  | sndPacing => exact pace_speaks P c now
  | linger => exact onLingerTimer_speaks c now
  | keepalive => exact onKeepaliveTimer_speaks c now
  | peerIdle => exact onPeerIdleTimer_speaks c now

theorem onAck_speaks (c : Connection) (ack : Ack) (now : Instant) : Speaks c (c.onAck ack now) := by
  rw [onAck_eq]
  exact ((settleAck_feedback c ack now).txStep.speaks.trans (finishCloseIfDrained_speaks _ now)).trans
    (answerAck_keyStep _ ack now).speaks

theorem onConnectedPacket_speaks (P : Primitives) (c : Connection) (packet : Packet) (now : Instant) :
    Speaks c (c.onConnectedPacket P packet now) := by
  cases packet with
  | data data => exact (onData_rxStep P c data now).speaks
  | control ctrl =>
    exact onControl_cases P c ctrl now (fun ack _ => onAck_speaks c ack now) (fun n => (onAckack_rxStep c n now).speaks)
      (fun loss _ => (onNak_feedback c loss now).txStep.speaks) (onShutdown_speaks c)
      (fun _ first last _ => (onDropreq_rxStep c first last now).speaks)
      (fun cif => (onKmReq_keyStep P c cif now).speaks) (fun cif => (onKmRsp_keyStep c cif).speaks)
      (fun bytes hb => .output c _ fun d hd => .inr (Output.sendDatagram.inj hd ▸ hb)) (.refl c)

theorem feedRecvBuf_speaks (P : Primitives) {c : Connection} (datagram : Bytes) (now : Instant)
    (h : c.Established) : Speaks c (c.feedRecvBuf P datagram now) := by
  have hrecv : Speaks c { c with lastRecvAny := now } := .same rfl rfl (.inl rfl) rfl
  unfold feedRecvBuf
  split
  · exact .refl c
  · split
    · next hs => simp [Established, hs] at h
    · next hs => simp [Established, hs] at h
    · exact hrecv.trans (onConnectedPacket_speaks P _ _ now)
    · exact .refl c

/-- A connection whose handshake is over keeps its outcome, whatever is called. -/
theorem perform_speaks (P : Primitives) {c : Connection} (call : Call) (now : Instant)
    (h : c.Established) : Speaks c (c.perform P call now) := by
  cases call with
  | feedRecvBuf datagram => exact feedRecvBuf_speaks P datagram now h
  | handleTimer id => exact handleTimer_speaks P c id now
  | send payload => exact send_speaks P c payload now
  | close => exact close_speaks c now
  | provideRekey sek => exact (provideRekey_keyStep P c sek now).speaks
  | pollEvent => exact .same rfl rfl (.inl rfl) rfl

/-! ## Before the handshake is over -/

/-- A connection that has nothing to do but its handshake. -/
structure Opening (c : Connection) : Prop where
  closing : c.link.closing = false
  nextSendSeq : c.tx.nextSendSeq = c.initialSeq
  sendQueue : c.tx.sendQueue = []
  outstanding : c.outstanding = []
  rekeyPending : c.keys.rekeyPending = false
  slots : c.rx.recvBuffer.slots = []

/-- The handshake goes on: at most the packet last sent is repeated. -/
structure Waits (c c' : Connection) : Prop where
  ident : c'.ident = c.ident
  link : c'.link = c.link
  keys : c'.keys = c.keys
  rx : c'.rx = c.rx
  tx : ∃ t, c'.tx = { c.tx with nextSend := t }
  outputs : ∃ os, c'.outputs = c.outputs ++ os ∧
    ∀ o ∈ os, o.Touches [.handshake, .tsbpd, .sndPacing] fun d => c.link.lastHandshake = some d

/-- What a call can do before the handshake is over. -/
inductive Opens (c : Connection) (call : Call) (now : Instant) : Connection → Prop
  | waits {c' : Connection} (h : Waits c c') : Opens c call now c'
  | ended {c' : Connection} (hs : c'.link.state = .failed) (h : Speaks c c')
      (hc : c'.link.closing = c.link.closing) : Opens c call now c'
  | concludes (hs : Handshake) (h : c.link.state = .induction) :
      Opens c call now ((c.enterConclusion hs).sendConclusion now)
  | connects (datagram : Bytes) (ctrl : ControlPacket) (hs : Handshake) (h : c.link.state = .conclusion)
      (hcall : call = .feedRecvBuf datagram) (hdecode : Packet.decode datagram = .ok (.control ctrl))
      (hbody : ctrl.body = .handshake hs) (htype : hs.handshakeType = .conclusion)
      (hversion : hs.version = hsVersionSrt) :
      Opens c call now
        ((c.output (.clearTimer .handshake)).enterConnected (negotiate c.config.latency hs) now)

theorem Waits.refl (c : Connection) : Waits c c := ⟨rfl, rfl, rfl, rfl, ⟨_, rfl⟩, [], by simp, by simp⟩

theorem Waits.output (c : Connection) (o : Output)
    (h : o.Touches [.handshake, .tsbpd, .sndPacing] fun d => c.link.lastHandshake = some d) :
    Waits c (c.output o) :=
  ⟨rfl, rfl, rfl, rfl, ⟨_, rfl⟩, [o], rfl, by simpa using h⟩

theorem Waits.opening {c c' : Connection} (h : Waits c c') (ho : c.Opening) : c'.Opening := by
  obtain ⟨t, ht⟩ := h.tx
  have hseq : c'.initialSeq = c.initialSeq := congrArg (·.2.2.1) h.ident
  refine ⟨?_, ?_, ?_, ?_, ?_, ?_⟩
  · rw [h.link]
    exact ho.closing
  · rw [ht, hseq]
    exact ho.nextSendSeq
  · rw [ht]
    exact ho.sendQueue
  · rw [Connection.outstanding, ht]
    exact ho.outstanding
  · rw [h.keys]
    exact ho.rekeyPending
  · rw [h.rx]
    exact ho.slots

/-- With an empty queue a pacing slot releases nothing. -/
theorem pace_waits (P : Primitives) {c : Connection} (now : Instant) (h : c.Opening) :
    Waits c (c.pace P now) := by
  have hrelease : ∀ period, ∃ t, c.release P period now = c.setNextSend t := by
    intro period
    have hloop : ∃ t, paceLoop P period now maxPaceBurst c = (c.setNextSend t, false) := by
      change ∃ t, paceLoop P period now (255 + 1) c = _
      unfold paceLoop
      split
      · exact ⟨c.tx.nextSend, rfl⟩
      · rw [h.sendQueue]
        exact ⟨none, rfl⟩
    obtain ⟨t, ht⟩ := hloop
    refine ⟨t, ?_⟩
    rw [release, ht]
    simp
  unfold pace
  cases c.tx.liveCc with
  | none => exact .refl c
  | some cc =>
    obtain ⟨t, ht⟩ := hrelease cc.sndPeriod
    dsimp only
    rw [ht]
    have hqueue : (c.setNextSend t).tx.sendQueue.isEmpty = true := by
      simp [setNextSend, h.sendQueue]
    have hopen : ((c.setNextSend t).output (.clearTimer .sndPacing)).link.closing = false := h.closing
    rw [schedulePacing, if_pos hqueue, finishCloseIfDrained, if_neg (by simp [hopen])]
    exact ⟨rfl, rfl, rfl, rfl, ⟨t, rfl⟩, [.clearTimer .sndPacing], rfl, by simp [Output.Touches]⟩

theorem handleTimer_opens (P : Primitives) {c : Connection} (call : Call) (id : TimerId) (now : Instant)
    (h : c.Opening) (hs : ¬ c.Established) : Opens c call now (c.handleTimer P id now) := by
  have hconn : c.link.state ≠ .connected := fun hc => hs (.inl hc)
  have same {c'} (he : c' = c) : Opens c call now c' := by
    rw [he]
    exact .waits (.refl c)
  cases id with
  | handshake =>
    simp only [handleTimer, onHandshakeTimer]
    split
    · exact same rfl
    · split
      · exact .ended rfl
          (((fail_speaks c).trans (clearTimer_speaks _ .handshake)).trans
            (event_speaks _ (.failed .handshakeTimeout))) rfl
      · split
        · next bytes hb =>
          refine .waits ⟨rfl, rfl, rfl, rfl, ⟨_, rfl⟩, [.sendDatagram bytes, .setTimer .handshake synInterval],
            by simp [Connection.output], ?_⟩
          simp [Output.Touches, hb]
        · exact same rfl
  | ack => exact same (if_pos hconn)
  | nak => exact same (if_pos hconn)
  | exp => exact same (if_pos (.inl hconn))
  | tsbpd =>
    have hpeek : c.rx.recvBuffer.peek = none := (RecvBuffer.peek_eq_none_iff _).mpr h.slots
    have hout : c.handleTimer P .tsbpd now = c.output (.clearTimer .tsbpd) := by
      rw [handleTimer, deliverTsbpd, deliverLoop, hpeek]
    rw [hout]
    exact .waits (.output c _ (by simp [Output.Touches]))
  | sndPacing => exact .waits (pace_waits P now h)
  | linger => exact same (if_neg (by simp [h.closing]))
  | keepalive => exact same (if_pos hconn)
  | peerIdle => exact same (if_pos hconn)

theorem onHandshakePacket_opens {c : Connection} (datagram : Bytes) (packet : Packet) (now : Instant)
    (hdecode : Packet.decode datagram = .ok packet)
    (hs : c.link.state = .induction ∨ c.link.state = .conclusion) :
    Opens c (.feedRecvBuf datagram) now (c.onHandshakePacket packet now) := by
  unfold onHandshakePacket
  split
  · next timestamp dest hs' =>
    split
    · next reason _ =>
      exact .ended rfl
        (((fail_speaks c).trans (clearTimer_speaks _ .handshake)).trans
          (event_speaks _ (.failed (.rejected reason)))) rfl
    · split
      · next hind =>
        unfold onInductionResponse
        split
        · exact .waits (.refl c)
        · exact .concludes hs' hind
      · next hind =>
        unfold onConclusionResponse
        split
        · exact .waits (.refl c)
        · next hok =>
          push Not at hok
          exact .connects datagram _ hs' (hs.resolve_left hind) rfl hdecode rfl hok.1 hok.2
  · exact .waits (.refl c)

/-- A call before the handshake is over. -/
theorem perform_opens (P : Primitives) {c : Connection} (call : Call) (now : Instant)
    (h : c.Opening) (hs : ¬ c.Established) : Opens c call now (c.perform P call now) := by
  have same {c'} (he : c' = c) : Opens c call now c' := by
    rw [he]
    exact .waits (.refl c)
  have hconn : c.link.state ≠ .connected := fun hc => hs (.inl hc)
  have hfail : c.link.state ≠ .failed := fun hc => hs (.inr hc)
  cases call with
  | feedRecvBuf datagram =>
    simp only [perform, feedRecvBuf]
    split
    · exact same rfl
    · next packet hdecode =>
      split
      · exact onHandshakePacket_opens datagram packet now hdecode (.inl ‹_›)
      · exact onHandshakePacket_opens datagram packet now hdecode (.inr ‹_›)
      · contradiction
      · exact same rfl
  | handleTimer id => exact handleTimer_opens P _ id now h hs
  | send payload =>
    rcases perform_send_cases P c payload now with hsame | ⟨hc, -⟩
    · exact same hsame
    · exact absurd hc hconn
  | close =>
    have hclose : c.close now = c.fail.event .closed := by
      rw [close, if_neg (by simp [h.closing, hfail]), if_pos hconn]
    change Opens c .close now (c.close now)
    rw [hclose]
    exact .ended rfl ((fail_speaks c).trans (event_speaks _ _)) rfl
  | provideRekey sek => exact same (if_pos h.rekeyPending)
  | pollEvent => exact .waits ⟨rfl, rfl, rfl, rfl, ⟨_, rfl⟩, [], by simp [perform], by simp⟩

end Connection

end Srtrust
