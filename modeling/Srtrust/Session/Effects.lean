import Srtrust.Connection.Feedback
import Srtrust.Session.Embedder

/-! # What a call does to the link and to the timers

The wheel a connection's pending outputs lead to, and the effect of the closing and
handshake paths on the link, the events and that wheel. -/
namespace Srtrust
open BigEndian
set_option autoImplicit false

namespace Connection

/-- The wheel once the pending outputs are drained at `now`. -/
def wheelAfter (c : Connection) (w : Wheel) (now : Instant) : Wheel := w.applyAll now c.outputs

section Wheel

variable (c : Connection) (w : Wheel) (now : Instant)

@[simp] theorem wheelAfter_output (o : Output) :
    (c.output o).wheelAfter w now = Wheel.apply now (c.wheelAfter w now) o := by
  simp [wheelAfter, output]

@[simp] theorem wheelAfter_event (e : Event) :
    (c.event e).wheelAfter w now = c.wheelAfter w now := rfl

@[simp] theorem wheelAfter_fail : c.fail.wheelAfter w now = c.wheelAfter w now := rfl

@[simp] theorem wheelAfter_clearClosing :
    c.clearClosing.wheelAfter w now = c.wheelAfter w now := rfl

theorem wheelAfter_clearArqTimers (id : TimerId) :
    c.clearArqTimers.wheelAfter w now id = if id ∈ arqTimers then none else c.wheelAfter w now id := by
  cases id <;> simp [wheelAfter, clearArqTimers, arqTimers, Wheel.apply, Wheel.set]

variable {c w now}

/-- An output leaves the timers it does not name alone. -/
theorem apply_of_touches {ids : List TimerId} {said : Bytes → Prop} {o : Output}
    (h : o.Touches ids said) {id : TimerId}
    (hid : id ∉ ids) : Wheel.apply now w o id = w id := by
  cases o with
  | sendDatagram _ => rfl
  | setTimer i _ => exact Wheel.set_ne _ _ (fun he => hid (he ▸ h))
  | clearTimer i => exact Wheel.set_ne _ _ (fun he => hid (he ▸ h))

theorem Grows.wheelAfter_eq {ev : Event → Prop} {ids : List TimerId} {said : Bytes → Prop}
    {tr : Trace → Prop} {c' : Connection} (h : Grows ev ids said tr c c') {id : TimerId} (hid : id ∉ ids) :
    c'.wheelAfter w now id = c.wheelAfter w now id := by
  obtain ⟨os, ho, htouch⟩ := h.outputs
  rw [Connection.wheelAfter, ho, Wheel.applyAll_append]
  change Wheel.applyAll now (c.wheelAfter w now) os id = _
  generalize c.wheelAfter w now = v
  clear ho
  induction os generalizing v with
  | nil => rfl
  | cons o os ih =>
    rw [Wheel.applyAll_cons, ih (fun o ho => htouch o (List.mem_cons_of_mem _ ho))]
    exact apply_of_touches (htouch o List.mem_cons_self) hid

end Wheel

/-! ## Teardown -/

section Teardown

variable (c : Connection) (now : Instant)

theorem sayShutdown_inner : Inner [] c (c.sayShutdown now) := by
  unfold sayShutdown
  split
  · exact .output c _ trivial
  · exact ⟨rfl, .record c _ (by simp)⟩

theorem finalizeShutdown_link :
    (c.finalizeShutdown now).link = { c.link with closing := false, state := .failed } := by
  have h := (sayShutdown_inner c now).link
  simp only [finalizeShutdown, event, fail, clearClosing, output, clearArqTimers, h]

theorem sayShutdown_events : (c.sayShutdown now).events = c.events := by
  unfold sayShutdown
  split <;> rfl

theorem finalizeShutdown_events : (c.finalizeShutdown now).events = c.events ++ [.closed] := by
  simp only [finalizeShutdown, event, fail, clearClosing, output, clearArqTimers, sayShutdown_events]

theorem finalizeShutdown_wheel (w : Wheel) {id : TimerId} (hid : id ≠ .handshake) :
    (c.finalizeShutdown now).wheelAfter w now id = none := by
  rw [finalizeShutdown, wheelAfter_event, wheelAfter_fail, wheelAfter_clearClosing,
    wheelAfter_output]
  cases id <;>
    simp_all [Wheel.apply, Wheel.set, wheelAfter_clearArqTimers, arqTimers]

end Teardown

/-! ## Received datagrams -/

/-- What a received datagram can do, seen from the link. -/
inductive Received (c : Connection) (now : Instant) : Connection → Prop
  | ignored : Received c now c
  | inner {c' : Connection} (h : c.link.state = .connected)
      (hi : Inner [.tsbpd, .exp, .sndPacing] c c') : Received c now c'
  | acked (ack : Ack) (h : c.link.state = .connected) :
      Received c now ({ c with lastRecvAny := now }.onAck ack now)
  | shutdown (h : c.link.state = .connected) :
      Received c now { c with lastRecvAny := now }.onShutdown
  | rejected (reason : RejectReason) (h : c.link.state = .induction ∨ c.link.state = .conclusion) :
      Received c now ((c.fail.output (.clearTimer .handshake)).event (.failed (.rejected reason)))
  | induction (hs : Handshake) (h : c.link.state = .induction) :
      Received c now ((c.enterConclusion hs).sendConclusion now)
  | connected (negotiated : Negotiated) (h : c.link.state = .conclusion) :
      Received c now ((c.output (.clearTimer .handshake)).enterConnected negotiated now)

theorem emitHandshake_wheel (c : Connection) (dest : SocketId) (hs : Handshake) (w : Wheel)
    (now : Instant) {id : TimerId} (hid : id ≠ .handshake) :
    (c.emitHandshake dest hs now).wheelAfter w now id = c.wheelAfter w now id := by
  unfold emitHandshake
  split
  · rfl
  · rw [wheelAfter_output, Wheel.apply, Wheel.set_ne _ _ hid, wheelAfter_output]
    rfl

theorem onHandshakePacket_received (c : Connection) (packet : Packet) (now : Instant)
    (h : c.link.state = .induction ∨ c.link.state = .conclusion) :
    Received c now (c.onHandshakePacket packet now) := by
  unfold onHandshakePacket
  split
  · split
    · exact .rejected _ h
    · split
      · unfold onInductionResponse
        split
        · exact .ignored
        · exact .induction _ ‹_›
      · unfold onConclusionResponse
        split
        · exact .ignored
        · exact .connected _ (h.resolve_left ‹_›)
  · exact .ignored

theorem onConnectedPacket_received (P : Primitives) (c : Connection) (packet : Packet)
    (now : Instant) (h : c.link.state = .connected) :
    Received c now ({ c with lastRecvAny := now }.onConnectedPacket P packet now) := by
  have h0 : Inner [.tsbpd, .exp, .sndPacing] c { c with lastRecvAny := now } :=
    ⟨rfl, .same rfl rfl rfl⟩
  have rx {c'} (h' : RxStep { c with lastRecvAny := now } c') : Received c now c' :=
    .inner h (h0.trans (h'.inner.mono (by simp)))
  have key {c'} (h' : KeyStep { c with lastRecvAny := now } c') : Received c now c' :=
    .inner h (h0.trans (h'.inner.mono (by simp)))
  cases packet with
  | data data => exact rx (onData_rxStep P _ _ now)
  | control ctrl =>
    exact onControl_cases P _ ctrl now (fun ack _ => .acked ack h)
      (fun number => rx (onAckack_rxStep _ number now))
      (fun loss _ => .inner h (h0.trans ((onNak_feedback _ loss now).txStep.inner.mono (by simp))))
      (.shutdown h) (fun _ first last _ => rx (onDropreq_rxStep _ first last now))
      (fun cif => key (onKmReq_keyStep P _ cif now)) (fun cif => key (onKmRsp_keyStep _ cif))
      (fun bytes _ => .inner h (h0.trans (.output _ _ trivial))) (.inner h h0)

theorem feedRecvBuf_received (P : Primitives) (c : Connection) (datagram : Bytes) (now : Instant) :
    Received c now (c.feedRecvBuf P datagram now) := by
  unfold feedRecvBuf
  split
  · exact .ignored
  · split
    · exact onHandshakePacket_received c _ now (.inl ‹_›)
    · exact onHandshakePacket_received c _ now (.inr ‹_›)
    · exact onConnectedPacket_received P c _ now ‹_›
    · exact .ignored

/-! ## Timers -/

theorem onAckTimer_inner (c : Connection) (now : Instant) :
    Inner [.ack, .tsbpd] c (c.onAckTimer now) := by
  unfold onAckTimer
  split
  · exact .refl _ c
  · refine (Inner.output c (.setTimer .ack ackInterval) (by simp [Output.Touches])).trans ?_
    dsimp only
    split
    · exact .refl _ _
    · exact (sendFullAck_rxStep _ now).inner.mono (by simp)

theorem onNakTimer_inner (c : Connection) (now : Instant) :
    Inner [.nak, .tsbpd] c (c.onNakTimer now) := by
  unfold onNakTimer
  split
  · exact .refl _ c
  · refine (Inner.output c (.setTimer .nak c.nakInterval) (by simp [Output.Touches])).trans ?_
    dsimp only
    split
    · exact .refl _ _
    · split
      · exact .refl _ _
      · exact (sendNak_rxStep _ _ now).inner.mono (by simp)

theorem onKeepaliveTimer_inner (c : Connection) (now : Instant) :
    Inner [.keepalive] c (c.onKeepaliveTimer now) := by
  unfold onKeepaliveTimer
  split
  · exact .refl _ c
  · refine ((resendPendingKm_keyStep c now).inner.mono (by simp)).trans ?_
    generalize c.resendPendingKm now = d
    have hd : Inner [.keepalive] d
        (if keepalivePeriod ≤ now.saturatingDurationSince d.lastSent then d.emitControl .keepalive now
          else d) := by
      split
      · exact (KeyStep.emitControl d .keepalive now fun _ _ => trivial).inner.mono (by simp)
      · exact .refl _ d
    exact hd.trans (.output _ _ (by simp [Output.Touches]))

/-- The handshake timer retransmits, or gives up. -/
theorem onHandshakeTimer_cases (c : Connection) (now : Instant) :
    Inner [.handshake] c (c.onHandshakeTimer now) ∨
      (c.link.state = .induction ∨ c.link.state = .conclusion) ∧
        c.onHandshakeTimer now =
          (c.fail.output (.clearTimer .handshake)).event (.failed .handshakeTimeout) := by
  unfold onHandshakeTimer
  split
  · exact .inl (.refl _ c)
  · split
    · exact .inr ⟨by tauto, rfl⟩
    · refine .inl ?_
      split
      · exact (Inner.output c (.sendDatagram _) trivial).trans (.output _ _ (by simp [Output.Touches]))
      · exact .refl _ c

/-- The peer-idle timer is re-armed for the rest of the period, or gives up. -/
theorem onPeerIdleTimer_cases (c : Connection) (now : Instant) :
    Inner [.peerIdle] c (c.onPeerIdleTimer now) ∨
      c.link.state = .connected ∧
        c.onPeerIdleTimer now = c.fail.clearArqTimers.event (.failed .timeout) := by
  unfold onPeerIdleTimer
  split
  · exact .inl (.refl _ c)
  · dsimp only
    split
    · exact .inr ⟨by tauto, rfl⟩
    · exact .inl (.output c _ (by simp [Output.Touches]))

/-! ## Sending -/

/-- Pacing is sending work followed by scheduling. -/
theorem pace_cases (P : Primitives) (c : Connection) (now : Instant) :
    c.pace P now = c ∨ ∃ d, TxStep c d ∧ c.pace P now = d.schedulePacing now := by
  unfold pace
  cases c.tx.liveCc with
  | none => exact .inl rfl
  | some cc => exact .inr ⟨_, release_txStep P c cc.sndPeriod now, rfl⟩

/-- So is an accepted message. -/
theorem submit_cases (P : Primitives) (c : Connection) (payload : Bytes) (now : Instant) :
    TxStep c (c.submit P payload now) ∨
      ∃ d, TxStep c d ∧ c.submit P payload now = d.schedulePacing now := by
  have h1 : TxStep c c.countMessage := .ofTx c _
  unfold submit
  dsimp only
  split
  · exact .inl (h1.trans (.foldl (fun d fragment => sendData_txStep P d fragment now) _ _))
  · have h2 : ∀ fragments, TxStep c (c.countMessage.enqueue fragments) :=
      fun fragments => h1.trans (.ofTx _ _)
    rcases pace_cases P (c.countMessage.enqueue _) now with h | ⟨d, hd, h⟩
    · rw [h]
      exact .inl (h2 _)
    · exact .inr ⟨d, (h2 _).trans hd, h⟩

/-- A refused message changes nothing; only a connected sender that is not closing accepts. -/
theorem perform_send_cases (P : Primitives) (c : Connection) (payload : Bytes) (now : Instant) :
    c.perform P (.send payload) now = c ∨
      c.link.state = .connected ∧ c.link.closing = false ∧
        c.perform P (.send payload) now = c.submit P payload now := by
  simp only [perform, send]
  split
  · exact .inl rfl
  · exact .inr ⟨by tauto, by simp_all, rfl⟩

/-! ## Fresh connections -/

/-- The timers a connection has armed, for good, once it is connected. -/
def phaseTimers : List TimerId := [.ack, .nak, .keepalive, .peerIdle]

/-- A connection as `connect` or `accept` returns it. -/
structure Fresh (c : Connection) : Prop where
  closing : c.link.closing = false
  tx : c.tx = Sender.new c.config c.initialSeq
  rx : c.rx = Receiver.new c.config c.initialSeq
  phase : c.link.state = .induction ∧ c.events = [] ∨
    c.link.state = .connected ∧
      (∃ negotiated, c.events = [.connected negotiated] ∧ negotiated.peerInitialSeq = c.initialSeq) ∧
      ∀ now, ∀ id ∈ phaseTimers, (c.wheelAfter Wheel.idle now id).isSome
  idle : ∀ now, ∀ id ∉ .handshake :: phaseTimers, c.wheelAfter Wheel.idle now id = none
  rtt : c.rtt = RttEstimator.new
  history : ∀ t ∈ c.trace, t = .panicked

theorem Fresh.panicked {c : Connection} (h : c.Fresh) : c.panicked.Fresh := by
  refine ⟨h.closing, h.tx, h.rx, h.phase, h.idle, h.rtt, ?_⟩
  intro t ht
  rcases List.mem_append.mp ht with ht | ht
  · exact h.history t ht
  · exact List.mem_singleton.mp ht

theorem newBase_fresh (config : Config) (localSocketId : SocketId) (initialSeq : SeqNumber)
    (start : Instant) (side : Side) (keys : Keys) :
    ({ newBase config localSocketId initialSeq start side .induction with keys := keys } :
      Connection).Fresh :=
  ⟨rfl, rfl, rfl, .inl ⟨rfl, rfl⟩, fun _ _ _ => rfl, rfl, by simp [newBase]⟩

theorem Fresh.sendInduction {c : Connection} (now : Instant) (h : c.Fresh)
    (hs : c.link.state = .induction) : (c.sendInduction now).Fresh := by
  have hphase : (c.sendInduction now).link.state = .induction ∧ (c.sendInduction now).events = [] := by
    have hevents : c.events = [] := by
      rcases h.phase with h | h
      · exact h.2
      · simp_all
    unfold Connection.sendInduction emitHandshake
    split <;> exact ⟨hs, hevents⟩
  have hidle : ∀ t, ∀ id ∉ .handshake :: phaseTimers,
      (c.sendInduction now).wheelAfter Wheel.idle t id = none := by
    intro t id hid
    have hne : id ≠ .handshake := fun h => hid (h ▸ List.mem_cons_self)
    rw [← h.idle t id hid]
    unfold Connection.sendInduction emitHandshake
    split
    · rfl
    · rw [wheelAfter_output, Wheel.apply, Wheel.set_ne _ _ hne, wheelAfter_output]
      rfl
  refine ⟨?_, ?_, ?_, .inl hphase, hidle, ?_, ?_⟩ <;> unfold Connection.sendInduction emitHandshake <;>
    split
  · exact h.closing
  · exact h.closing
  · exact h.tx
  · exact h.tx
  · exact h.rx
  · exact h.rx
  · exact h.rtt
  · exact h.rtt
  · exact h.panicked.history
  · exact h.history

theorem connect_fresh (P : Primitives) (config : Config) (localSocketId : SocketId)
    (initialSeq : SeqNumber) (now : Instant) (salt : Block 16) (sek : (n : ℕ) → Block n) :
    (connect P config localSocketId initialSeq now salt sek).Fresh := by
  have hbase := newBase_fresh config localSocketId initialSeq now .caller
  unfold connect
  dsimp only
  split
  · exact (hbase _).sendInduction now rfl
  · split
    · exact (hbase _).panicked
    · exact (hbase _).sendInduction now rfl

/-- Entering the connected phase arms its four timers. -/
theorem enterConnected_outputs (c : Connection) (negotiated : Negotiated) (now : Instant) :
    (c.enterConnected negotiated now).outputs = c.outputs ++ [.setTimer .ack ackInterval,
      .setTimer .nak c.nakInterval, .setTimer .keepalive keepalivePeriod,
      .setTimer .peerIdle c.config.peerIdleTimeout] := by
  simp only [enterConnected, event, output, nakInterval, List.append_assoc, List.cons_append, List.nil_append]

/-- Entering the connected phase from a handshake that has armed nothing. -/
theorem enterConnected_fresh {c : Connection} (negotiated : Negotiated) (now : Instant)
    (hclosing : c.link.closing = false) (htx : c.tx = Sender.new c.config c.initialSeq)
    (hrx : c.rx = Receiver.new c.config c.initialSeq) (hevents : c.events = [])
    (hidle : ∀ t, c.wheelAfter Wheel.idle t = Wheel.idle) (hseq : negotiated.peerInitialSeq = c.initialSeq)
    (hrtt : c.rtt = RttEstimator.new) (htrace : ∀ t ∈ c.trace, t = .panicked) :
    (c.enterConnected negotiated now).Fresh := by
  have hwheel : ∀ t id, (c.enterConnected negotiated now).wheelAfter Wheel.idle t id
      = if id = .ack then some (t + (ackInterval : ℤ)) else if id = .nak then some (t + (c.nakInterval : ℤ))
        else if id = .keepalive then some (t + (keepalivePeriod : ℤ))
        else if id = .peerIdle then some (t + (c.config.peerIdleTimeout : ℤ)) else none := by
    intro t id
    have harmed := hidle t
    rw [wheelAfter] at harmed
    rw [wheelAfter, enterConnected_outputs, Wheel.applyAll_append, harmed]
    cases id <;> rfl
  have hpushed : (c.enterConnected negotiated now).events = [.connected negotiated] := by
    simp only [enterConnected, event, output, hevents, List.nil_append]
  -- The other fields are those of the record update, read off before it is taken apart.
  have hfields : (c.enterConnected negotiated now).link.closing = c.link.closing
      ∧ (c.enterConnected negotiated now).tx = c.tx
      ∧ (c.enterConnected negotiated now).rx = { c.rx with recvBuffer := RecvBuffer.new negotiated.peerInitialSeq }
      ∧ (c.enterConnected negotiated now).link.state = .connected
      ∧ (c.enterConnected negotiated now).config = c.config
      ∧ (c.enterConnected negotiated now).initialSeq = c.initialSeq
      ∧ (c.enterConnected negotiated now).rtt = c.rtt ∧ (c.enterConnected negotiated now).trace = c.trace := by
    simp only [enterConnected, event, output, and_self]
  generalize c.enterConnected negotiated now = d at hwheel hpushed hfields ⊢
  obtain ⟨hcl, ht, hr, hstate, hconfig, hinit, hrt, htr⟩ := hfields
  refine ⟨hcl.trans hclosing, ?_, ?_, .inr ⟨hstate, ⟨negotiated, hpushed, hinit ▸ hseq⟩, ?_⟩, ?_,
    hrt.trans hrtt, htr ▸ htrace⟩
  · rw [ht, hconfig, hinit, htx]
  · rw [hr, hconfig, hinit, hrx, hseq]
    rfl
  · intro t id hid
    rw [hwheel]
    fin_cases hid <;> simp
  · intro t id hid
    rw [hwheel]
    simp only [phaseTimers, List.mem_cons, not_or] at hid
    simp [hid]

theorem accept_fresh {P : Primitives} {config : Config} {localSocketId : SocketId}
    {callerHs : Handshake} {now : Instant} {c : Connection}
    (h : accept P config localSocketId callerHs now = .ok c) : c.Fresh := by
  unfold accept at h
  split at h
  · exact absurd h (by simp)
  · dsimp only at h
    split at h
    · obtain rfl := Except.ok.inj h
      exact enterConnected_fresh _ _ rfl rfl rfl rfl (fun _ => rfl) rfl rfl
        (by simp [newBase, panicked, record])
    · obtain rfl := Except.ok.inj h
      exact enterConnected_fresh _ _ rfl rfl rfl rfl (fun _ => rfl) rfl rfl (by simp [newBase, output])

theorem accept_connected {P : Primitives} {config : Config} {localSocketId : SocketId}
    {callerHs : Handshake} {now : Instant} {c : Connection}
    (h : accept P config localSocketId callerHs now = .ok c) : c.link.state = .connected := by
  unfold accept at h
  split at h
  · exact absurd h (by simp)
  · dsimp only at h
    split at h <;> obtain rfl := Except.ok.inj h <;> simp only [enterConnected, event, output]

end Connection

theorem Session.Started.fresh {P : Primitives} {s : Session} (h : Started P s) :
    ∃ c now, c.Fresh ∧ s = start c now := by
  cases h with
  | caller config localSocketId initialSeq now salt sek =>
    exact ⟨_, now, Connection.connect_fresh P config localSocketId initialSeq now salt sek, rfl⟩
  | acceptor config localSocketId callerHs now c h => exact ⟨c, now, Connection.accept_fresh h, rfl⟩

end Srtrust
