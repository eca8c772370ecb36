import Srtrust.Session.Actions
import Srtrust.Session.Alarms

/-! # How long a phase can last

A handshake, a silence of the peer and a lingering close each end by a timer. With an embedder that fires an
armed timer at most `slack` after its deadline, each of the three is over by its configured time: the timer
is armed for as long as the phase lasts, and never beyond the time allowed. -/
namespace Srtrust
open BigEndian
set_option autoImplicit false

namespace Connection

/-! ## What leaves the phase's clocks alone -/

/-- Work that neither hears the peer nor touches the timers for an idle peer and for a close. -/
structure Unhurried (c c' : Connection) : Prop where
  ident : c'.ident = c.ident
  link : c'.link = c.link
  lastRecvAny : c'.lastRecvAny = c.lastRecvAny
  wheel : ∀ w now, ∀ id ∈ [TimerId.peerIdle, .linger], c'.wheelAfter w now id = c.wheelAfter w now id

namespace Unhurried

theorem refl (c : Connection) : Unhurried c c := ⟨rfl, rfl, rfl, fun _ _ _ _ => rfl⟩

theorem trans {a b c : Connection} (h : Unhurried a b) (h' : Unhurried b c) : Unhurried a c :=
  ⟨h'.ident.trans h.ident, h'.link.trans h.link, h'.lastRecvAny.trans h.lastRecvAny,
    fun w now id hid => (h'.wheel w now id hid).trans (h.wheel w now id hid)⟩

theorem rx {c c' : Connection} (h : RxStep c c') : Unhurried c c' := by
  refine ⟨h.ident, h.link, h.lastRecvAny, fun w now id hid => h.grows.wheelAfter_eq ?_⟩
  fin_cases hid <;> simp

theorem tx {c c' : Connection} (h : TxStep c c') : Unhurried c c' := by
  refine ⟨h.ident, h.link, h.lastRecvAny, fun w now id hid => h.grows.wheelAfter_eq ?_⟩
  fin_cases hid <;> simp

theorem key {c c' : Connection} (h : KeyStep c c') : Unhurried c c' :=
  ⟨h.ident, h.link, h.lastRecvAny, fun _ _ _ _ => h.grows.wheelAfter_eq List.not_mem_nil⟩

theorem output (c : Connection) (ids : List TimerId) (o : Output) (ho : o.Touches ids fun _ => True)
    (hids : ∀ id ∈ [TimerId.peerIdle, .linger], id ∉ ids) : Unhurried c (c.output o) := by
  refine ⟨rfl, rfl, rfl, fun w now id hid => ?_⟩
  exact (Inner.output c o ho).grows.wheelAfter_eq (hids id hid)

end Unhurried

section Calls

variable {c : Connection} {now : Instant}

theorem onAckTimer_unhurried (c : Connection) (now : Instant) : Unhurried c (c.onAckTimer now) := by
  unfold onAckTimer
  split
  · exact .refl c
  · have harm : Unhurried c (c.output (.setTimer .ack ackInterval)) :=
      .output c [.ack] _ (by simp [Output.Touches]) (by simp)
    refine harm.trans ?_
    dsimp only
    split
    · exact .refl _
    · exact .rx (sendFullAck_rxStep _ now)

theorem onNakTimer_unhurried (c : Connection) (now : Instant) : Unhurried c (c.onNakTimer now) := by
  unfold onNakTimer
  split
  · exact .refl c
  · have harm : Unhurried c (c.output (.setTimer .nak c.nakInterval)) :=
      .output c [.nak] _ (by simp [Output.Touches]) (by simp)
    refine harm.trans ?_
    dsimp only
    split
    · exact .refl _
    · split
      · exact .refl _
      · exact .rx (sendNak_rxStep _ _ now)

theorem onKeepaliveTimer_unhurried (c : Connection) (now : Instant) : Unhurried c (c.onKeepaliveTimer now) := by
  unfold onKeepaliveTimer
  split
  · exact .refl c
  · refine (Unhurried.key (resendPendingKm_keyStep c now)).trans ?_
    generalize c.resendPendingKm now = d
    have hsay : Unhurried d
        (if keepalivePeriod ≤ now.saturatingDurationSince d.lastSent then d.emitControl .keepalive now
          else d) := by
      split
      · exact .key (KeyStep.emitControl d .keepalive now fun _ _ => trivial)
      · exact .refl d
    exact hsay.trans (.output _ [.keepalive] _ (by simp [Output.Touches]) (by simp))

theorem schedulePacing_unhurried (hs : (c.schedulePacing now).link.state = .connected) :
    Unhurried c (c.schedulePacing now) := by
  unfold schedulePacing at hs ⊢
  split at hs
  · next hempty =>
    rw [if_pos hempty, finishCloseIfDrained_connected hs]
    exact .output c [.sndPacing] _ (by simp [Output.Touches]) (by simp)
  · next hfull =>
    rw [if_neg hfull]
    exact .output c [.sndPacing] _ (by simp [Output.Touches]) (by simp)

theorem onAck_unhurried (ack : Ack) (hs : (c.onAck ack now).link.state = .connected) :
    Unhurried c (c.onAck ack now) := by
  have hsettle : Unhurried c (c.settleAck ack now) := .tx (settleAck_feedback c ack now).txStep
  rw [onAck_eq] at hs ⊢
  have hanswer := answerAck_keyStep ((c.settleAck ack now).finishCloseIfDrained now) ack now
  rw [hanswer.link] at hs
  rw [finishCloseIfDrained_connected hs] at hanswer ⊢
  exact hsettle.trans (.key hanswer)

theorem onConnectedPacket_unhurried (P : Primitives) (packet : Packet)
    (hs : (c.onConnectedPacket P packet now).link.state = .connected) :
    Unhurried c (c.onConnectedPacket P packet now) := by
  cases packet with
  | data data => exact .rx (onData_rxStep P c data now)
  | control ctrl =>
    refine onControl_cases (R := fun d => d.link.state = .connected → Unhurried c d) P c ctrl now
      (fun ack _ => onAck_unhurried ack) (fun number _ => .rx (onAckack_rxStep c number now))
      (fun loss _ _ => .tx (onNak_feedback c loss now).txStep) (fun hs => ?_)
      (fun _ first last _ _ => .rx (onDropreq_rxStep c first last now))
      (fun cif _ => .key (onKmReq_keyStep P c cif now)) (fun cif _ => .key (onKmRsp_keyStep c cif))
      (fun bytes _ _ => .output c [] _ trivial (by simp)) (fun _ => .refl c) hs
    exact absurd hs (by simp [onShutdown, fail, clearArqTimers, event])

/-- A call that leaves the connection up: unless it is the idle timer's or a close, it hears the peer at most. -/
theorem perform_unhurried (P : Primitives) (call : Call) (hup : c.link.state = .connected)
    (hs : (c.perform P call now).link.state = .connected) (hidle : call ≠ .handleTimer .peerIdle)
    (hclose : call ≠ .close) :
    Unhurried c (c.perform P call now) ∨
      call.packet.isSome ∧ Unhurried { c with lastRecvAny := now } (c.perform P call now) := by
  cases call with
  | feedRecvBuf datagram =>
    simp only [perform, feedRecvBuf, Call.packet] at hs ⊢
    split at hs
    · exact .inl (.refl c)
    · next packet hdecode =>
      rw [hup] at hs ⊢
      exact .inr ⟨by rw [hdecode]; rfl, onConnectedPacket_unhurried P packet hs⟩
  | handleTimer id =>
    left
    cases id with
    | handshake =>
      have hsame : c.onHandshakeTimer now = c := by
        rw [onHandshakeTimer, if_pos (by simp [hup])]
      change Unhurried c (c.onHandshakeTimer now)
      rw [hsame]
      exact .refl c
    | ack => exact onAckTimer_unhurried c now
    | nak => exact onNakTimer_unhurried c now
    | exp => exact .tx (onExpTimer_feedback c now).txStep
    | tsbpd => exact .rx (deliverTsbpd_rxStep c now)
    | sndPacing =>
      change (c.pace P now).link.state = .connected at hs
      change Unhurried c (c.pace P now)
      rcases pace_cases P c now with h | ⟨d, hd, h⟩
      · rw [h]
        exact .refl c
      · rw [h] at hs ⊢
        exact (Unhurried.tx hd).trans (schedulePacing_unhurried hs)
    | linger =>
      change (c.onLingerTimer now).link.state = .connected at hs
      change Unhurried c (c.onLingerTimer now)
      unfold onLingerTimer at hs ⊢
      split at hs
      · rw [finalizeShutdown_link] at hs
        exact absurd hs (by simp)
      · next hopen =>
        rw [if_neg hopen]
        exact .refl c
    | keepalive => exact onKeepaliveTimer_unhurried c now
    | peerIdle => exact absurd rfl hidle
  | send payload =>
    left
    rcases perform_send_cases P c payload now with h | ⟨-, -, h⟩
    · rw [h]
      exact .refl c
    · rw [h] at hs ⊢
      rcases submit_cases P c payload now with htx | ⟨d, hd, h⟩
      · exact .tx htx
      · rw [h] at hs ⊢
        exact (Unhurried.tx hd).trans (schedulePacing_unhurried hs)
  | close => exact absurd rfl hclose
  | provideRekey sek => exact .inl (.key (provideRekey_keyStep P c sek now))
  | pollEvent => exact .inl ⟨rfl, rfl, rfl, fun _ _ _ _ => rfl⟩

/-- The idle timer of a connection that stays up is armed for the rest of the period. -/
theorem onPeerIdleTimer_connected (hup : c.link.state = .connected)
    (hs : (c.onPeerIdleTimer now).link.state = .connected) :
    c.onPeerIdleTimer now
      = c.output (.setTimer .peerIdle (c.config.peerIdleTimeout - now.saturatingDurationSince c.lastRecvAny))
    ∧ now.saturatingDurationSince c.lastRecvAny < c.config.peerIdleTimeout := by
  unfold onPeerIdleTimer at hs ⊢
  rw [if_neg (by simp [hup])] at hs ⊢
  dsimp only at hs ⊢
  split at hs
  · exact absurd hs (by simp [fail, clearArqTimers, event])
  · next hrest =>
    rw [if_neg hrest]
    exact ⟨rfl, not_le.mp hrest⟩

/-- A close of a connection that stays up is a repeated one, or starts to linger. -/
theorem close_connected (hup : c.link.state = .connected) (hs : (c.close now).link.state = .connected) :
    c.close now = c ∧ c.link.closing = true ∨ c.close now = c.beginClose ∧ c.link.closing = false := by
  unfold close at hs ⊢
  split at hs
  · next hagain =>
    rw [if_pos hagain]
    exact .inl ⟨rfl, hagain.resolve_right (by simp [hup])⟩
  · next hfirst =>
    rw [if_neg hfirst, if_neg (by simp [hup])] at *
    split at hs
    · rw [finalizeShutdown_link] at hs
      exact absurd hs (by simp)
    · next hbusy =>
      rw [if_neg hbusy]
      exact .inr ⟨rfl, by simpa using fun h => hfirst (.inl h)⟩

/-- A connection that enters the phase has just heard its peer. -/
structure Entered (c : Connection) (now : Instant) : Prop where
  closing : c.link.closing = false
  lastRecvAny : c.lastRecvAny = now
  wheel : ∀ w, c.wheelAfter w now .peerIdle = some (now + (c.config.peerIdleTimeout : ℤ))

theorem enterConnected_entered (negotiated : Negotiated) (hopen : c.link.closing = false) :
    (c.enterConnected negotiated now).Entered now := by
  refine ⟨hopen, rfl, fun w => ?_⟩
  rw [wheelAfter, enterConnected_outputs, Wheel.applyAll_append]
  rfl

theorem accept_entered {P : Primitives} {config : Config} {localSocketId : SocketId} {callerHs : Handshake}
    (h : accept P config localSocketId callerHs now = .ok c) : c.Entered now := by
  unfold accept at h
  split at h
  · exact absurd h (by simp)
  · dsimp only at h
    split at h
    · obtain rfl := Except.ok.inj h
      exact enterConnected_entered _ rfl
    · obtain rfl := Except.ok.inj h
      exact enterConnected_entered _ rfl

theorem Opens.entered {c' : Connection} {call : Call} (h : Opens c call now c') (hopen : c.Opening)
    (hs : ¬ c.Established) (hup : c'.link.state = .connected) : call.packet.isSome ∧ c'.Entered now := by
  cases h with
  | waits h => exact absurd (.inl (h.link ▸ hup)) hs
  | ended h _ _ => simp [h] at hup
  | concludes hs _ =>
    rw [(sendConclusion_frame (c.enterConclusion hs) now).2.2.1] at hup
    simp [enterConclusion] at hup
  | connects datagram ctrl hs _ hcall hdecode _ _ _ =>
    refine ⟨?_, enterConnected_entered _ hopen.closing⟩
    rw [Call.packet_eq_some.mpr ⟨datagram, hcall, hdecode⟩]
    rfl

end Calls

/-! ## Dialling -/

/-- The handshake waits, and its timer with it. -/
structure Patient (c c' : Connection) : Prop where
  ident : c'.ident = c.ident
  link : c'.link = c.link
  trace : ∀ t ∈ c.trace, t ∈ c'.trace
  wheel : ∀ w now, c'.wheelAfter w now .handshake = c.wheelAfter w now .handshake

/-- What a call does to a handshake under way, seen from its timer. -/
inductive Dials (c : Connection) (call : Call) (now : Instant) : Connection → Prop
  | patient {c' : Connection} (hcall : call ≠ .handleTimer .handshake) (h : Patient c c') : Dials c call now c'
  | settled {c' : Connection} (h : c'.Established) : Dials c call now c'
  | mute (h : c.link.lastHandshake = none) : Dials c call now c
  | repeats (bytes : Bytes) (h : c.link.lastHandshake = some bytes)
      (hin : now.saturatingDurationSince c.start < c.config.connectTimeout) :
      Dials c call now ((c.output (.sendDatagram bytes)).output (.setTimer .handshake synInterval))
  | concludes (hs : Handshake) (h : c.link.state = .induction) :
      Dials c call now ((c.enterConclusion hs).sendConclusion now)

section Dials

variable {c : Connection} {now : Instant}

theorem Patient.refl (c : Connection) : Patient c c := ⟨rfl, rfl, fun _ ht => ht, fun _ _ => rfl⟩

theorem Patient.output (c : Connection) (id : TimerId) (o : Output) (ho : o.Touches [id] fun _ => True)
    (hid : id ≠ .handshake) : Patient c (c.output o) := by
  refine ⟨rfl, rfl, fun _ ht => ht, fun w now => (Inner.output c o ho).grows.wheelAfter_eq ?_⟩
  simpa using hid.symm

theorem pace_patient (P : Primitives) (now : Instant) (h : c.Opening) : Patient c (c.pace P now) := by
  rcases pace_cases P c now with hsame | ⟨d, htx, hpace⟩
  · rw [hsame]
    exact .refl c
  · have hopen : d.link.closing = false := htx.link ▸ h.closing
    have hwork : Patient c d := by
      refine ⟨htx.ident, htx.link, fun t ht => ?_, fun w now => htx.grows.wheelAfter_eq (by simp)⟩
      obtain ⟨ts, htrace, -⟩ := htx.grows.trace
      rw [htrace]
      exact List.mem_append_left ts ht
    have hschedule : ∃ o : Output, o.Touches [.sndPacing] (fun _ => True) ∧ d.schedulePacing now = d.output o := by
      unfold schedulePacing
      split
      · refine ⟨.clearTimer .sndPacing, by simp [Output.Touches], ?_⟩
        exact if_neg fun hdrained => absurd (hopen.symm.trans hdrained.1) (by simp)
      · exact ⟨_, by simp [Output.Touches], rfl⟩
    obtain ⟨o, ho, heq⟩ := hschedule
    have harm : Patient d (d.output o) := .output d .sndPacing o ho (by simp)
    rw [hpace, heq]
    exact ⟨harm.ident.trans hwork.ident, harm.link.trans hwork.link, fun t ht => harm.trace t (hwork.trace t ht),
      fun w now => (harm.wheel w now).trans (hwork.wheel w now)⟩

theorem handleTimer_dials (P : Primitives) (id : TimerId) (now : Instant) (h : c.Opening) (hs : ¬ c.Established) :
    Dials c (.handleTimer id) now (c.handleTimer P id now) := by
  have hconn : c.link.state ≠ .connected := fun hc => hs (.inl hc)
  have same {c'} (hid : id ≠ .handshake) (he : c' = c) : Dials c (.handleTimer id) now c' := by
    rw [he]
    exact .patient (by simpa using hid) (.refl c)
  cases id with
  | handshake =>
    simp only [handleTimer, onHandshakeTimer]
    split
    · next hneither =>
      rcases hstate : c.link.state with _ | _ | _ | _ <;> simp_all [Established]
    · split
      · exact .settled (.inr rfl)
      · next hin =>
        split
        · next bytes hb => exact .repeats bytes hb (not_le.mp hin)
        · next hnone => exact .mute hnone
  | ack => exact same (by simp) (if_pos hconn)
  | nak => exact same (by simp) (if_pos hconn)
  | exp => exact same (by simp) (if_pos (.inl hconn))
  | tsbpd =>
    have hpeek : c.rx.recvBuffer.peek = none := (RecvBuffer.peek_eq_none_iff _).mpr h.slots
    have hout : c.handleTimer P .tsbpd now = c.output (.clearTimer .tsbpd) := by
      rw [handleTimer, deliverTsbpd, deliverLoop, hpeek]
    rw [hout]
    exact .patient (by simp) (.output c .tsbpd _ (by simp [Output.Touches]) (by simp))
  | sndPacing => exact .patient (by simp) (pace_patient P now h)
  | linger => exact same (by simp) (if_neg (by simp [h.closing]))
  | keepalive => exact same (by simp) (if_pos hconn)
  | peerIdle => exact same (by simp) (if_pos hconn)

/-- A call before the handshake is over. -/
theorem perform_dials (P : Primitives) (call : Call) (now : Instant) (h : c.Opening) (hs : ¬ c.Established) :
    Dials c call now (c.perform P call now) := by
  have hconn : c.link.state ≠ .connected := fun hc => hs (.inl hc)
  cases call with
  | feedRecvBuf datagram =>
    have h := feedRecvBuf_received P c datagram now
    change Dials c (.feedRecvBuf datagram) now (c.feedRecvBuf P datagram now)
    generalize c.feedRecvBuf P datagram now = c' at h ⊢
    cases h with
    | ignored => exact .patient (by simp) (.refl c)
    | inner h _ => exact absurd h hconn
    | acked _ h => exact absurd h hconn
    | shutdown h => exact absurd h hconn
    | rejected reason _ => exact .settled (.inr rfl)
    | induction hs' h => exact .concludes hs' h
    | connected negotiated _ => exact .settled (.inl rfl)
  | handleTimer id => exact handleTimer_dials P id now h hs
  | send payload =>
    rcases perform_send_cases P c payload now with hsame | ⟨hc, -⟩
    · rw [hsame]
      exact .patient (by simp) (.refl c)
    · exact absurd hc hconn
  | close =>
    have hfail : c.link.state ≠ .failed := fun hc => hs (.inr hc)
    refine .settled (.inr ?_)
    change (c.close now).link.state = .failed
    rw [close, if_neg (by simp [h.closing, hfail]), if_pos hconn]
    rfl
  | provideRekey sek =>
    have hsame : c.provideRekey P sek now = c := if_pos h.rekeyPending
    exact .patient (by simp) (by rw [perform, hsame]; exact .refl c)
  | pollEvent => exact .patient (by simp) ⟨rfl, rfl, fun _ ht => ht, fun _ _ => rfl⟩

/-- A handshake that can be put on the wire is kept for repetition, with its timer armed. -/
theorem emitHandshake_dials (dest : SocketId) (hs : Handshake)
    (hfine : .panicked ∉ (c.emitHandshake dest hs now).trace) :
    (c.emitHandshake dest hs now).link.lastHandshake.isSome ∧ .panicked ∉ c.trace ∧
      ∀ w, (c.emitHandshake dest hs now).wheelAfter w now .handshake = some (now + (synInterval : ℤ)) := by
  unfold emitHandshake at hfine ⊢
  split at hfine
  · exact absurd (by simp [Connection.panicked, record]) hfine
  · refine ⟨rfl, hfine, fun w => ?_⟩
    simp [Wheel.apply]

theorem connect_dials {P : Primitives} {config : Config} {localSocketId : SocketId} {initialSeq : SeqNumber}
    {salt : Block 16} {sek : (n : ℕ) → Block n}
    (hfine : .panicked ∉ (connect P config localSocketId initialSeq now salt sek).trace) :
    (connect P config localSocketId initialSeq now salt sek).link.lastHandshake.isSome ∧
      ∀ w, (connect P config localSocketId initialSeq now salt sek).wheelAfter w now .handshake
        = some (now + (synInterval : ℤ)) := by
  unfold connect at hfine ⊢
  dsimp only at hfine ⊢
  split at hfine
  · obtain ⟨hsome, -, hwheel⟩ := emitHandshake_dials _ _ hfine
    exact ⟨hsome, hwheel⟩
  · split at hfine
    · exact absurd (by simp [Connection.panicked, record]) hfine
    · obtain ⟨hsome, -, hwheel⟩ := emitHandshake_dials _ _ hfine
      exact ⟨hsome, hwheel⟩

end Dials

end Connection

namespace Session

/-! ## Deadlines -/

/-- No armed timer is overdue by more than `slack`. -/
def Prompt (slack : Duration) (s : Session) (input : Call × Instant) : Prop :=
  ∀ id, ∀ deadline ∈ s.wheel id, input.2 ≤ deadline + (slack : ℤ)

/-- All timers there are. -/
def timerIds : List TimerId := [.handshake, .ack, .nak, .exp, .tsbpd, .sndPacing, .linger, .keepalive, .peerIdle]

theorem mem_timerIds (id : TimerId) : id ∈ timerIds := by
  cases id <;> simp [timerIds]

instance (slack : Duration) (s : Session) (input : Call × Instant) : Decidable (s.Prompt slack input) :=
  decidable_of_iff (∀ id ∈ timerIds, ∀ deadline ∈ s.wheel id, input.2 ≤ deadline + (slack : ℤ))
    ⟨fun h id => h id (mem_timerIds id), fun h id _ => h id⟩

/-- A timer that fires by some time, which the clock has not passed. -/
structure Due (s : Session) (slack : Duration) (id : TimerId) (bound : Instant) : Prop where
  armed : ∃ deadline ∈ s.wheel id, deadline ≤ bound
  clock : s.clock ≤ bound + (slack : ℤ)

section Due

variable {P : Primitives} {s : Session} {slack : Duration} {id : TimerId} {bound : Instant} {call : Call}
  {now : Instant}

theorem Due.mono {bound' : Instant} (h : s.Due slack id bound) (hle : bound ≤ bound') : s.Due slack id bound' := by
  obtain ⟨deadline, hd, hb⟩ := h.armed
  exact ⟨⟨deadline, hd, hb.trans hle⟩, h.clock.trans (by linarith)⟩

/-- A timer that a call leaves alone. -/
theorem Due.kept (h : s.Due slack id bound) (hprompt : s.Prompt slack (call, now)) (hdrained : s.conn.outputs = [])
    (hspent : call ≠ .handleTimer id)
    (hwheel : ∀ w t, (s.conn.perform P call now).wheelAfter w t id = s.conn.wheelAfter w t id) :
    (s.step P (call, now)).Due slack id bound := by
  obtain ⟨deadline, hd, hb⟩ := h.armed
  have hsame : (s.step P (call, now)).wheel id = s.wheel id := by
    change (s.conn.perform P call now).wheelAfter (s.wheel.fired call) now id = s.wheel id
    rw [hwheel, Connection.wheelAfter, hdrained, Wheel.applyAll_nil]
    cases call with
    | handleTimer spent => exact Wheel.set_ne _ _ fun he => hspent (by rw [he])
    | _ => rfl
  refine ⟨⟨deadline, hsame ▸ hd, hb⟩, ?_⟩
  have hnow : now ≤ deadline + (slack : ℤ) := hprompt id deadline hd
  change now ≤ bound + (slack : ℤ)
  linarith

/-- A timer that a call arms. -/
theorem Due.set (after : Duration)
    (hwheel : ∀ w, (s.conn.perform P call now).wheelAfter w now id = some (now + (after : ℤ)))
    (hle : now + (after : ℤ) ≤ bound) : (s.step P (call, now)).Due slack id bound := by
  refine ⟨⟨_, hwheel _, hle⟩, ?_⟩
  change now ≤ bound + (slack : ℤ)
  linarith

end Due

/-! ## The connected phase -/

/-- The idle timer fires by the time allowed since the peer was heard, and the linger timer by the time allowed
since the close. -/
structure Bounded (slack : Duration) (heard closed : Instant → Prop) (s : Session) : Prop where
  vigilant : s.Vigilant
  idle : s.conn.link.state = .connected → ∃ t, heard t ∧ s.conn.lastRecvAny ≤ t
    ∧ s.Due slack .peerIdle (t + (s.conn.config.peerIdleTimeout : ℤ))
  linger : s.conn.link.state = .connected → s.conn.link.closing = true →
    ∃ t, closed t ∧ s.Due slack .linger (t + (s.conn.config.linger : ℤ))

namespace Bounded

variable {P : Primitives} {slack : Duration} {heard closed : Instant → Prop} {s : Session} {call : Call} {now : Instant}

/-- A call that only works on, and perhaps hears the peer. -/
theorem unhurried (h : Bounded slack heard closed s) (hprompt : s.Prompt slack (call, now))
    (hup : s.conn.link.state = .connected) (hidle : call ≠ .handleTimer .peerIdle)
    (hlinger : s.conn.link.closing = true → call ≠ .handleTimer .linger) {c : Connection}
    (hident : c.ident = s.conn.ident) (hlink : c.link = s.conn.link)
    (hwheel : ∀ w t id, c.wheelAfter w t id = s.conn.wheelAfter w t id)
    (hrecv : c.lastRecvAny = s.conn.lastRecvAny ∨ c.lastRecvAny = now ∧ heard now)
    (hu : Connection.Unhurried c (s.conn.perform P call now)) : Bounded slack heard closed (s.step P (call, now)) := by
  have hconfig : (s.step P (call, now)).conn.config = s.conn.config :=
    Connection.config_of_ident (hu.ident.trans hident)
  have hclosing : (s.step P (call, now)).conn.link = s.conn.link := hu.link.trans hlink
  have hlast : (s.step P (call, now)).conn.lastRecvAny = c.lastRecvAny := hu.lastRecvAny
  have hkept : ∀ id ∈ [TimerId.peerIdle, .linger], ∀ w t,
      (s.conn.perform P call now).wheelAfter w t id = s.conn.wheelAfter w t id :=
    fun id hid w t => (hu.wheel w t id hid).trans (hwheel w t id)
  refine ⟨h.vigilant.step P _, fun _ => ?_, fun _ hclose => ?_⟩
  · obtain ⟨t, hheard, hle, hdue⟩ := h.idle hup
    have hdue' := hdue.kept hprompt h.vigilant.drained hidle (hkept .peerIdle (by simp))
    rw [hconfig, hlast]
    rcases hrecv with hsame | ⟨hnow, hheard'⟩
    · exact ⟨t, hheard, hsame.le.trans hle, hdue'⟩
    · rcases le_total now t with hearlier | hlater
      · exact ⟨t, hheard, hnow.le.trans hearlier, hdue'⟩
      · exact ⟨now, hheard', hnow.le, hdue'.mono (by linarith)⟩
  · rw [hclosing] at hclose
    obtain ⟨t, hclosed, hdue⟩ := h.linger hup hclose
    rw [hconfig]
    exact ⟨t, hclosed, hdue.kept hprompt h.vigilant.drained (hlinger hclose) (hkept .linger (by simp))⟩

/-- The idle timer fires early, or the peer has been heard since it was armed. -/
theorem idleTimer (h : Bounded slack heard closed s) (hprompt : s.Prompt slack (.handleTimer .peerIdle, now))
    (hup : s.conn.link.state = .connected)
    (hs : (s.step P (.handleTimer .peerIdle, now)).conn.link.state = .connected) :
    Bounded slack heard closed (s.step P (.handleTimer .peerIdle, now)) := by
  obtain ⟨hrearm, hrest⟩ := @Connection.onPeerIdleTimer_connected s.conn now hup hs
  have hperform : s.conn.perform P (.handleTimer .peerIdle) now = s.conn.output (.setTimer .peerIdle
      (s.conn.config.peerIdleTimeout - now.saturatingDurationSince s.conn.lastRecvAny)) := hrearm
  have hconn : (s.step P (.handleTimer .peerIdle, now)).conn = { s.conn with outputs := [] } := by
    change ({ s.conn.perform P (.handleTimer .peerIdle) now with outputs := [] } : Connection) = _
    rw [hperform]
    rfl
  refine ⟨h.vigilant.step P _, fun _ => ?_, fun _ hclose => ?_⟩
  · obtain ⟨t, hheard, hle, -⟩ := h.idle hup
    rw [hconn]
    refine ⟨t, hheard, hle, .set (s.conn.config.peerIdleTimeout
      - now.saturatingDurationSince s.conn.lastRecvAny) (fun w => ?_) ?_⟩
    · rw [hperform]
      simp [Wheel.apply]
    · -- what is left of the period ends with it, counted from the last packet
      have hleft : now - s.conn.lastRecvAny ≤ (now.saturatingDurationSince s.conn.lastRecvAny : ℤ) :=
        Int.self_le_toNat _
      rw [Nat.cast_sub hrest.le]
      linarith
  · rw [hconn] at hclose ⊢
    obtain ⟨t, hclosed, hdue⟩ := h.linger hup hclose
    refine ⟨t, hclosed, hdue.kept hprompt h.vigilant.drained (by simp) fun w u => ?_⟩
    rw [hperform]
    simp [Wheel.apply]

/-- The first close starts to linger; a repeated one changes nothing. -/
theorem close (h : Bounded slack heard closed s) (hprompt : s.Prompt slack (.close, now))
    (hup : s.conn.link.state = .connected) (hclosed : closed now)
    (hs : (s.step P (.close, now)).conn.link.state = .connected) :
    Bounded slack heard closed (s.step P (.close, now)) := by
  rcases @Connection.close_connected s.conn now hup hs with ⟨hsame, -⟩ | ⟨hbegin, hfirst⟩
  · refine h.unhurried hprompt hup (by simp) (by simp) rfl rfl (fun _ _ _ => rfl) (.inl rfl) ?_
    change Connection.Unhurried s.conn (s.conn.close now)
    rw [hsame]
    exact .refl s.conn
  · have hperform : s.conn.perform P .close now = s.conn.beginClose := hbegin
    have hconn : (s.step P (.close, now)).conn.config = s.conn.config
        ∧ (s.step P (.close, now)).conn.lastRecvAny = s.conn.lastRecvAny := by
      change (s.conn.perform P .close now).config = _ ∧ (s.conn.perform P .close now).lastRecvAny = _
      rw [hperform]
      exact ⟨rfl, rfl⟩
    refine ⟨h.vigilant.step P _, fun _ => ?_, fun _ _ => ?_⟩
    · obtain ⟨t, hheard, hle, hdue⟩ := h.idle hup
      rw [hconn.1, hconn.2]
      refine ⟨t, hheard, hle, hdue.kept hprompt h.vigilant.drained (by simp) fun w u => ?_⟩
      rw [hperform, Connection.beginClose, Connection.wheelAfter_output, Wheel.apply, Wheel.set_ne _ _ (by simp)]
      rfl
    · rw [hconn.1]
      refine ⟨now, hclosed, .set s.conn.config.linger (fun w => ?_) le_rfl⟩
      rw [hperform, Connection.beginClose, Connection.wheelAfter_output, Wheel.apply, Wheel.set_self]

theorem step (h : Bounded slack heard closed s) (hprompt : s.Prompt slack (call, now))
    (hheard : call.packet.isSome → heard now) (hclosed : call = .close → closed now) :
    Bounded slack heard closed (s.step P (call, now)) := by
  by_cases hs : (s.step P (call, now)).conn.link.state = .connected
  swap
  · exact ⟨h.vigilant.step P _, fun hs' => absurd hs' hs, fun hs' => absurd hs' hs⟩
  by_cases he : s.conn.Established
  · have hup : s.conn.link.state = .connected := Calling.connected_before (P := P) (x := (call, now)) he hs
    by_cases hidle : call = .handleTimer .peerIdle
    · subst hidle
      exact h.idleTimer hprompt hup hs
    by_cases hclose : call = .close
    · subst hclose
      exact h.close hprompt hup (hclosed rfl) hs
    have hlinger : s.conn.link.closing = true → call ≠ .handleTimer .linger := by
      rintro hclosing rfl
      change (s.conn.onLingerTimer now).link.state = .connected at hs
      rw [Connection.onLingerTimer, if_pos hclosing, Connection.finalizeShutdown_link] at hs
      exact absurd hs (by simp)
    rcases Connection.perform_unhurried P call hup hs hidle hclose with hu | ⟨hpacket, hu⟩
    · exact h.unhurried hprompt hup hidle hlinger rfl rfl (fun _ _ _ => rfl) (.inl rfl) hu
    · exact h.unhurried hprompt hup hidle hlinger (c := { s.conn with lastRecvAny := now }) rfl rfl
        (fun _ _ _ => rfl) (.inr ⟨rfl, hheard hpacket⟩) hu
  · obtain ⟨hopen, -⟩ := h.vigilant.waiting he
    obtain ⟨hpacket, hentered⟩ := (Connection.perform_opens P call now hopen he).entered hopen he hs
    refine ⟨h.vigilant.step P _, fun _ => ⟨now, hheard hpacket, hentered.lastRecvAny.le, ?_⟩, fun _ hclose => ?_⟩
    · exact .set (s.step P (call, now)).conn.config.peerIdleTimeout hentered.wheel le_rfl
    · exact absurd (hentered.closing.symm.trans hclose) (by simp)

theorem started (h : Started P s) (hheard : heard s.clock) : Bounded slack heard closed s := by
  refine ⟨h.vigilant, fun hup => ?_, fun hup hclose => ?_⟩
  · cases h with
    | caller config localSocketId initialSeq now salt sek =>
      have hcalls := Connection.connect_calls P config localSocketId initialSeq now salt sek
      exact absurd (hcalls.state.symm.trans hup) (by simp)
    | acceptor config localSocketId callerHs now c h =>
      have hentered := Connection.accept_entered h
      refine ⟨now, hheard, hentered.lastRecvAny.le, ⟨_, hentered.wheel _, le_rfl⟩, ?_⟩
      change now ≤ now + (c.config.peerIdleTimeout : ℤ) + (slack : ℤ)
      linarith [Int.natCast_nonneg c.config.peerIdleTimeout, Int.natCast_nonneg slack]
  · cases h with
    | caller config localSocketId initialSeq now salt sek =>
      have hcalls := Connection.connect_calls P config localSocketId initialSeq now salt sek
      exact absurd (hcalls.state.symm.trans hup) (by simp)
    | acceptor config localSocketId callerHs now c h =>
      exact absurd ((Connection.accept_entered h).closing.symm.trans hclose) (by simp)

end Bounded

/-! ## The handshake -/

/-- When the handshake has to be given up: it is repeated until its time is over, and reaching the conclusion
arms its timer once more. -/
def dialBound (slack : Duration) (c : Connection) : Instant :=
  c.start + (c.config.connectTimeout : ℤ) + (synInterval : ℤ)
    + if c.link.state = .induction then 0 else (synInterval : ℤ) + (slack : ℤ)

/-- A handshake under way has a packet to repeat, and its timer fires by the time allowed. -/
structure Dialling (slack : Duration) (origin : Instant) (s : Session) : Prop where
  vigilant : s.Vigilant
  start : ¬ s.conn.Established → s.conn.start = origin
  waits : ¬ s.conn.Established → .panicked ∉ s.conn.trace →
    s.conn.link.lastHandshake.isSome ∧ s.Due slack .handshake (dialBound slack s.conn)

namespace Dialling

variable {P : Primitives} {slack : Duration} {origin : Instant} {s : Session} {call : Call} {now : Instant}

theorem bound_congr {c c' : Connection} (hident : c'.ident = c.ident) (hstate : c'.link.state = c.link.state) :
    dialBound slack c' = dialBound slack c := by
  have hstart : c'.start = c.start := congrArg (·.2.2.2.1) hident
  rw [dialBound, dialBound, hstart, Connection.config_of_ident hident, hstate]

/-- The timer fires again within the time allowed. -/
theorem repeats (hin : now.saturatingDurationSince s.conn.start < s.conn.config.connectTimeout) :
    now + (synInterval : ℤ) ≤ dialBound slack s.conn := by
  have hsince : now - s.conn.start ≤ (now.saturatingDurationSince s.conn.start : ℤ) := Int.self_le_toNat _
  have hin' : (now.saturatingDurationSince s.conn.start : ℤ) < (s.conn.config.connectTimeout : ℤ) :=
    Int.ofNat_lt.mpr hin
  have hextra : (0 : ℤ) ≤ if s.conn.link.state = .induction then 0 else (synInterval : ℤ) + (slack : ℤ) := by
    split
    · exact le_rfl
    · exact Int.add_nonneg (Int.natCast_nonneg _) (Int.natCast_nonneg _)
  rw [dialBound]
  linarith

/-- The induction was answered before the timer was overdue. -/
theorem concludes (h : s.Due slack .handshake (dialBound slack s.conn)) (hprompt : s.Prompt slack (call, now))
    (hind : s.conn.link.state = .induction) {c : Connection} (hident : c.ident = s.conn.ident)
    (hstate : c.link.state = .conclusion) : now + (synInterval : ℤ) ≤ dialBound slack c := by
  obtain ⟨deadline, harmed, hle⟩ := h.armed
  have hnow : now ≤ deadline + (slack : ℤ) := hprompt _ deadline harmed
  have hstart : c.start = s.conn.start := congrArg (·.2.2.2.1) hident
  rw [dialBound, if_pos hind] at hle
  rw [dialBound, hstart, Connection.config_of_ident hident, hstate, if_neg (by simp)]
  linarith

theorem step (h : Dialling slack origin s) (hprompt : s.Prompt slack (call, now)) :
    Dialling slack origin (s.step P (call, now)) := by
  have hbefore : ¬ (s.conn.perform P call now).Established → ¬ s.conn.Established :=
    fun hn he => hn ((Connection.perform_speaks P call now he).established he)
  refine ⟨h.vigilant.step P _, fun hn => ?_, fun hn hfine => ?_⟩
  · have he := hbefore hn
    have hopen := (h.vigilant.waiting he).1
    exact (congrArg (·.2.2.2.1) ((Connection.perform_opens P call now hopen he).frame hopen).1).trans (h.start he)
  have he := hbefore hn
  have hdials := Connection.perform_dials P call now (h.vigilant.waiting he).1 he
  change ¬ (s.conn.perform P call now).Established at hn
  change .panicked ∉ (s.conn.perform P call now).trace at hfine
  generalize hc' : s.conn.perform P call now = c' at hdials hn hfine
  have hconn : (s.step P (call, now)).conn = { c' with outputs := [] } := by
    rw [← hc']
    rfl
  rw [hconn]
  change c'.link.lastHandshake.isSome ∧ (s.step P (call, now)).Due slack .handshake (dialBound slack c')
  have hset : (∀ w, c'.wheelAfter w now .handshake = some (now + (synInterval : ℤ))) →
      now + (synInterval : ℤ) ≤ dialBound slack c' → (s.step P (call, now)).Due slack .handshake (dialBound slack c') :=
    fun hwheel hle => .set synInterval (by rw [hc']; exact hwheel) hle
  cases hdials with
  | patient hcall hp =>
    obtain ⟨hsome, hdue⟩ := h.waits he fun ht => hfine (hp.trace _ ht)
    rw [bound_congr hp.ident (by rw [hp.link]), hp.link]
    exact ⟨hsome, hdue.kept hprompt h.vigilant.drained hcall (by rw [hc']; exact hp.wheel)⟩
  | settled hsettled => exact absurd hsettled hn
  | mute hnone =>
    obtain ⟨hsome, -⟩ := h.waits he hfine
    rw [hnone] at hsome
    exact absurd hsome (by simp)
  | repeats bytes hb hin =>
    refine ⟨Option.isSome_iff_exists.mpr ⟨bytes, hb⟩, hset (fun w => ?_) (repeats hin)⟩
    simp [Wheel.apply]
  | concludes hs hind =>
    obtain ⟨hsome, hclean, hwheel⟩ := Connection.emitHandshake_dials _ _ hfine
    obtain ⟨hident, -, hstate, -⟩ := Connection.sendConclusion_frame (s.conn.enterConclusion hs) now
    obtain ⟨-, hdue⟩ := h.waits he hclean
    exact ⟨hsome, hset hwheel (concludes hdue hprompt hind hident hstate)⟩

theorem started (h : Started P s) : Dialling slack s.clock s := by
  refine ⟨h.vigilant, fun hn => ?_, fun hn hfine => ?_⟩
  · cases h with
    | caller config localSocketId initialSeq now salt sek =>
      exact congrArg (·.2.2.2.1) (Connection.connect_ident P config localSocketId initialSeq now salt sek)
    | acceptor config localSocketId callerHs now c h =>
      exact absurd (Or.inl (Connection.accept_connected h)) hn
  · cases h with
    | caller config localSocketId initialSeq now salt sek =>
      have hident := Connection.connect_ident P config localSocketId initialSeq now salt sek
      have hstate := (Connection.connect_calls P config localSocketId initialSeq now salt sek).state
      obtain ⟨hsome, hwheel⟩ := Connection.connect_dials hfine
      have hbound : dialBound slack
          (Session.start (Connection.connect P config localSocketId initialSeq now salt sek) now).conn
          = now + (config.connectTimeout : ℤ) + (synInterval : ℤ) := by
        change dialBound slack (Connection.connect P config localSocketId initialSeq now salt sek) = _
        have hstart : (Connection.connect P config localSocketId initialSeq now salt sek).start = now :=
          congrArg (·.2.2.2.1) hident
        have hconfig : (Connection.connect P config localSocketId initialSeq now salt sek).config = config :=
          congrArg (·.1) hident
        rw [dialBound, if_pos hstate, hstart, hconfig, add_zero]
      have htimeout : (0 : ℤ) ≤ config.connectTimeout := Int.natCast_nonneg _
      have hsyn : (0 : ℤ) ≤ synInterval := Int.natCast_nonneg _
      have hslack : (0 : ℤ) ≤ slack := Int.natCast_nonneg _
      rw [hbound]
      refine ⟨hsome, ⟨_, hwheel _, by linarith⟩, ?_⟩
      change now ≤ _
      linarith
    | acceptor config localSocketId callerHs now c h =>
      exact absurd (Or.inl (Connection.accept_connected h)) hn

end Dialling

/-! ## Every phase ends -/

theorem Prompt.mono {slack slack' : Duration} (h : slack ≤ slack') (s : Session) (input : Call × Instant)
    (hp : s.Prompt slack input) : s.Prompt slack' input := by
  intro id deadline hd
  have hle : (slack : ℤ) ≤ slack' := Int.ofNat_le.mpr h
  linarith [hp id deadline hd]

/-- A finite run is as prompt as its latest timer. -/
theorem exists_prompt (P : Primitives) (s : Session) (inputs : List (Call × Instant)) :
    ∃ slack, Runs.Meets (step P) (Prompt slack) s inputs := by
  induction inputs generalizing s with
  | nil => exact ⟨0, trivial⟩
  | cons input rest ih =>
    obtain ⟨later, hlater⟩ := ih (s.step P input)
    have hlate : ∀ ids : List TimerId, ∃ slack : Duration,
        ∀ id ∈ ids, ∀ deadline ∈ s.wheel id, input.2 ≤ deadline + (slack : ℤ) := by
      intro ids
      induction ids with
      | nil => exact ⟨0, by simp⟩
      | cons id ids ih =>
        obtain ⟨slack, hslack⟩ := ih
        refine ⟨max slack (input.2 - (s.wheel id).getD 0).toNat, fun i hi deadline hd => ?_⟩
        rcases List.mem_cons.mp hi with rfl | hi
        · rw [Option.mem_def.mp hd, Option.getD_some]
          have hself := Int.self_le_toNat (input.2 - deadline)
          have hmax : ((input.2 - deadline).toNat : ℤ) ≤ (max slack (input.2 - deadline).toNat : ℕ) :=
            Int.ofNat_le.mpr (le_max_right _ _)
          linarith
        · have hmax : (slack : ℤ) ≤ (max slack (input.2 - (s.wheel id).getD 0).toNat : ℕ) :=
            Int.ofNat_le.mpr (le_max_left _ _)
          linarith [hslack i hi deadline hd]
    obtain ⟨slack, hslack⟩ := hlate timerIds
    refine ⟨max slack later, ?_, hlater.mono (Prompt.mono (le_max_right _ _))⟩
    exact Prompt.mono (le_max_left _ _) s input fun id => hslack id (mem_timerIds id)

/-- A handshake under way has its timer armed, however late the timers are. -/
theorem dialling_armed (P : Primitives) {s : Session} (hs : Started P s) (inputs : List (Call × Instant))
    (hn : ¬ (Runs.run (step P) s inputs).conn.Established)
    (hfine : .panicked ∉ (Runs.run (step P) s inputs).conn.trace) :
    ((Runs.run (step P) s inputs).wheel .handshake).isSome := by
  obtain ⟨slack, hprompt⟩ := exists_prompt P s inputs
  have hdials : Dialling slack s.clock (Runs.run (step P) s inputs) :=
    Runs.invariant (fun _ _ h hp => h.step hp) (.started hs) hprompt
  obtain ⟨deadline, harmed, -⟩ := (hdials.waits hn hfine).2.armed
  rw [Option.mem_def.mp harmed]
  rfl

/-- No phase outlasts its timeout: with timers at most `slack` late, a handshake is over by the connection timeout
and two repetitions, a connection is up only while packets keep coming within the idle timeout, and a close
lingers no longer than configured. -/
theorem phases_end (P : Primitives) (s : Session) (hs : Started P s) (slack : Duration)
    (inputs : List (Call × Instant)) (hprompt : Runs.Meets (step P) (Prompt slack) s inputs) :
    (¬ (Runs.run (step P) s inputs).conn.Established → .panicked ∉ (Runs.run (step P) s inputs).conn.trace →
      (Runs.run (step P) s inputs).clock
        ≤ s.clock + ((Runs.run (step P) s inputs).conn.config.connectTimeout + 2 * synInterval + 2 * slack : ℕ)) ∧
    ((Runs.run (step P) s inputs).conn.link.state = .connected →
      ∃ t, (t = s.clock ∨ ∃ d packet, (.feedRecvBuf d, t) ∈ inputs ∧ Packet.decode d = .ok packet) ∧
        (Runs.run (step P) s inputs).clock
          ≤ t + ((Runs.run (step P) s inputs).conn.config.peerIdleTimeout + slack : ℕ)) ∧
    ((Runs.run (step P) s inputs).conn.link.state = .connected →
      (Runs.run (step P) s inputs).conn.link.closing = true →
      ∃ t, (.close, t) ∈ inputs ∧
        (Runs.run (step P) s inputs).clock ≤ t + ((Runs.run (step P) s inputs).conn.config.linger + slack : ℕ)) := by
  have hdials : Dialling slack s.clock (Runs.run (step P) s inputs) :=
    Runs.invariant (fun _ _ h hp => h.step hp) (.started hs) hprompt
  have hmem : Runs.Meets (step P) (fun s x => s.Prompt slack x ∧ x ∈ inputs) s inputs :=
    hprompt.and (Runs.meets_of_mem (fun _ hx => hx) s)
  have hbounded : Bounded slack
      (fun t => t = s.clock ∨ ∃ d packet, (.feedRecvBuf d, t) ∈ inputs ∧ Packet.decode d = .ok packet)
      (fun t => (.close, t) ∈ inputs) (Runs.run (step P) s inputs) := by
    refine Runs.invariant (fun s x h hx => h.step hx.1 (fun hpacket => ?_) fun hclose => ?_)
      (.started hs (.inl rfl)) hmem
    · obtain ⟨packet, hpacket⟩ := Option.isSome_iff_exists.mp hpacket
      obtain ⟨d, hcall, hdecode⟩ := Call.packet_eq_some.mp hpacket
      exact .inr ⟨d, packet, hcall ▸ hx.2, hdecode⟩
    · exact hclose ▸ hx.2
  generalize Runs.run (step P) s inputs = s' at hdials hbounded ⊢
  push_cast
  refine ⟨fun hn hfine => ?_, fun hup => ?_, fun hup hclose => ?_⟩
  · have hclock := (hdials.waits hn hfine).2.clock
    have hextra : (if s'.conn.link.state = .induction then 0 else (synInterval : ℤ) + (slack : ℤ))
        ≤ (synInterval : ℤ) + (slack : ℤ) := by
      split
      · exact Int.add_nonneg (Int.natCast_nonneg _) (Int.natCast_nonneg _)
      · exact le_rfl
    rw [dialBound, hdials.start hn] at hclock
    linarith
  · obtain ⟨t, hheard, -, hdue⟩ := hbounded.idle hup
    exact ⟨t, hheard, by linarith [hdue.clock]⟩
  · obtain ⟨t, hclosed, hdue⟩ := hbounded.linger hup hclose
    exact ⟨t, hclosed, by linarith [hdue.clock]⟩

/-- A close that waits for its acknowledgement while the timers of the phase fire, the first of them a little late. -/
def lateTimers : List (Call × Instant) :=
  [(.send [1], 3000000), (.close, 4000000), (.handleTimer .ack, 11000000), (.handleTimer .ack, 21000000)]

theorem phases_end_lateTimers :
    Runs.Meets (step Primitives.absent) (Prompt 1000000) plainAcceptor lateTimers ∧
      ∃ t, (.close, t) ∈ lateTimers ∧
        (Runs.run (step Primitives.absent) plainAcceptor lateTimers).clock
          ≤ t + ((Runs.run (step Primitives.absent) plainAcceptor lateTimers).conn.config.linger + 1000000 : ℕ) :=
  ⟨by decide +kernel,
    (phases_end Primitives.absent plainAcceptor plainAcceptor_started 1000000 lateTimers (by decide +kernel)).2.2
      (by decide +kernel) (by decide +kernel)⟩

end Session

end Srtrust
