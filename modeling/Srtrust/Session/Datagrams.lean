import Srtrust.Session.Teardown

/-! # Datagrams

What the calls put on the wire, apart from data and the announcement of a key: control packets, and
the last handshake packet sent again. -/
namespace Srtrust
open BigEndian
set_option autoImplicit false

/-- Control packets other than Key Material requests and drop requests. -/
def Packet.IsRoutine : Packet → Prop
  | .control { body := .raw controlType subtype _ _, .. } => controlType = .userDefined ∧ subtype ≠ extKmreq
  | .control { body := .dropReq _ _ _, .. } => False
  | .control _ => True
  | .data _ => False

namespace Connection

/-- A datagram queued, or kept to be sent again. -/
def Said (c : Connection) (d : Bytes) : Prop := .sendDatagram d ∈ c.outputs ∨ c.link.lastHandshake = some d

/-- Every datagram that is new encodes a packet of this kind. -/
def Sends (kind : Packet → Prop) (c c' : Connection) : Prop :=
  ∀ d, c'.Said d → c.Said d ∨ Encodes kind d

namespace Sends
variable {kind : Packet → Prop}

theorem refl (c : Connection) : Sends kind c c := fun _ => .inl

theorem trans {a b c : Connection} (h : Sends kind a b) (h' : Sends kind b c) : Sends kind a c :=
  fun d hd => (h' d hd).elim (h d) .inr

theorem same {c c' : Connection} (ho : c'.outputs = c.outputs)
    (hl : c'.link.lastHandshake = c.link.lastHandshake) : Sends kind c c' := by
  intro d hd
  rw [Said, ho, hl] at hd
  exact .inl hd

theorem output (c : Connection) (o : Output)
    (h : ∀ d, o = .sendDatagram d → c.Said d ∨ Encodes kind d) :
    Sends kind c (c.output o) := by
  intro d hd
  rcases hd with hd | hd
  · rcases List.mem_append.mp hd with hd | hd
    · exact .inl (.inl hd)
    · exact h d (List.mem_singleton.mp hd).symm
  · exact .inl (.inr hd)

theorem timer (c : Connection) (o : Output) (h : ∀ d, o ≠ .sendDatagram d) : Sends kind c (c.output o) :=
  .output c o fun d hd => absurd hd (h d)

theorem event (c : Connection) (e : Event) : Sends kind c (c.event e) := .same rfl rfl

theorem panicked (c : Connection) : Sends kind c c.panicked := .same rfl rfl

theorem emitControl (c : Connection) (body : ControlBody) (now : Instant)
    (h : ∀ timestamp destSocketId, kind (.control { timestamp, destSocketId, body })) :
    Sends kind c (c.emitControl body now) := by
  unfold Connection.emitControl
  split
  · next bytes henc =>
    intro d hd
    rcases hd with hd | hd
    · rcases List.mem_append.mp hd with hd | hd
      · exact .inl (.inl hd)
      · obtain rfl := Output.sendDatagram.inj (List.mem_singleton.mp hd)
        exact .inr ⟨_, h _ _, henc⟩
    · exact .inl (.inr hd)
  · exact .panicked c

theorem ofGrows {ev : Event → Prop} {ids : List TimerId} {said : Packet → Prop} {tr : Trace → Prop}
    {c c' : Connection} (hl : c'.link = c.link) (h : Grows ev ids (Encodes said) tr c c')
    (hk : ∀ p, said p → kind p) : Sends kind c c' := by
  obtain ⟨os, ho, hos⟩ := h.outputs
  intro d hd
  rw [Said, hl, ho] at hd
  rcases hd with hd | hd
  · rcases List.mem_append.mp hd with hd | hd
    · exact .inl (.inl hd)
    · obtain ⟨p, hp, henc⟩ := hos _ hd
      exact .inr ⟨p, hk p hp, henc⟩
  · exact .inl (.inr hd)

theorem mono {kind' : Packet → Prop} (hk : ∀ p, kind p → kind' p) {c c' : Connection} (h : Sends kind c c') :
    Sends kind' c c' := by
  intro d hd
  rcases h d hd with hold | ⟨p, hp, henc⟩
  · exact .inl hold
  · exact .inr ⟨p, hk p hp, henc⟩

end Sends

theorem RxStep.sends {c c' : Connection} (h : RxStep c c') : Sends Packet.IsRoutine c c' :=
  .ofGrows h.link h.grows fun p hp => by
    rcases p with _ | ⟨_, _, _ | _ | _ | _ | _ | _ | _ | _ | _ | _⟩ <;>
      simp_all [Packet.IsReport, Packet.IsRoutine]

theorem Feedback.sends {ids : List TimerId} {c c' : Connection} (h : Feedback ids c c') :
    Sends (Packet.Resends c.outstanding) c c' :=
  .ofGrows h.link h.grows fun _ => id

/-! ## Teardown and handshake -/

theorem fail_sends (c : Connection) : Sends Packet.IsRoutine c c.fail := .same rfl rfl

theorem clearArqTimers_sends (c : Connection) : Sends Packet.IsRoutine c c.clearArqTimers := by
  intro d hd
  exact .inl (by simpa [Said, clearArqTimers] using hd)

theorem finalizeShutdown_sends (c : Connection) (now : Instant) :
    Sends Packet.IsRoutine c (c.finalizeShutdown now) := by
  have hsay : Sends Packet.IsRoutine c (c.sayShutdown now) := by
    unfold sayShutdown
    split
    · next bytes henc =>
      refine .output c _ fun d hd => .inr ⟨_, ?_, Output.sendDatagram.inj hd ▸ henc⟩
      trivial
    · exact .panicked c
  have hclosing : ∀ c : Connection, Sends Packet.IsRoutine c c.clearClosing := fun _ => .same rfl rfl
  exact ((((hsay.trans (clearArqTimers_sends _)).trans (.timer _ _ (by simp))).trans (hclosing _)).trans
    (fail_sends _)).trans (.event _ _)

theorem finishCloseIfDrained_sends (c : Connection) (now : Instant) :
    Sends Packet.IsRoutine c (c.finishCloseIfDrained now) := by
  unfold finishCloseIfDrained
  split
  · exact finalizeShutdown_sends c now
  · exact .refl c

theorem close_sends (c : Connection) (now : Instant) : Sends Packet.IsRoutine c (c.close now) := by
  have hlink : ∀ (c : Connection) (link : Link), link.lastHandshake = c.link.lastHandshake →
      Sends Packet.IsRoutine c { c with link := link } := fun _ _ hl => .same rfl hl
  have hbegin : Sends Packet.IsRoutine c c.beginClose :=
    (hlink c { c.link with closing := true } rfl).trans (.timer _ _ (by simp))
  unfold close
  split
  · exact .refl c
  · split
    · exact (fail_sends c).trans (.event _ _)
    · split
      · exact finalizeShutdown_sends c now
      · exact hbegin

theorem onShutdown_sends (c : Connection) : Sends Packet.IsRoutine c c.onShutdown :=
  (((flushLoop_rxStep _ c).sends.trans (fail_sends _)).trans (clearArqTimers_sends _)).trans (.event _ _)

theorem emitHandshake_sends (c : Connection) (dest : SocketId) (hs : Handshake) (now : Instant) :
    Sends Packet.IsRoutine c (c.emitHandshake dest hs now) := by
  unfold emitHandshake
  split
  · exact .panicked c
  · next bytes henc =>
    have hnew : Encodes Packet.IsRoutine bytes :=
      ⟨.control ⟨c.wireTs now, dest, .handshake hs⟩, trivial, henc⟩
    intro d hd
    simp only [Said, output, List.mem_append, List.mem_singleton, Output.sendDatagram.injEq,
      reduceCtorEq, or_false, Option.some.injEq] at hd
    rcases hd with (hd | rfl) | rfl
    · exact .inl (.inl hd)
    · exact .inr hnew
    · exact .inr hnew

theorem onHandshakePacket_sends (c : Connection) (packet : Packet) (now : Instant) :
    Sends Packet.IsRoutine c (c.onHandshakePacket packet now) := by
  have henter : ∀ hs, Sends Packet.IsRoutine c (c.enterConclusion hs) := fun _ => .same rfl rfl
  have hconnected : ∀ (c : Connection) negotiated, Sends Packet.IsRoutine c (c.enterConnected negotiated now) := by
    intro c negotiated d hd
    exact .inl (by simpa [Said, enterConnected, output, event] using hd)
  unfold onHandshakePacket
  split
  · split
    · exact ((fail_sends c).trans (.timer _ _ (by simp))).trans (.event _ _)
    · split
      · unfold onInductionResponse
        split
        · exact .refl c
        · exact (henter _).trans (emitHandshake_sends _ _ _ now)
      · unfold onConclusionResponse
        split
        · exact .refl c
        · exact (Sends.timer c _ (by simp)).trans (hconnected _ _)
  · exact .refl c

/-! ## Timers and acknowledgements -/

theorem schedulePacing_sends (c : Connection) (now : Instant) : Sends Packet.IsRoutine c (c.schedulePacing now) := by
  unfold schedulePacing
  split
  · exact (Sends.timer c _ (by simp)).trans (finishCloseIfDrained_sends _ now)
  · exact .timer c _ (by simp)

theorem onAckTimer_sends (c : Connection) (now : Instant) : Sends Packet.IsRoutine c (c.onAckTimer now) := by
  unfold onAckTimer
  split
  · exact .refl c
  · refine (Sends.timer c (.setTimer .ack ackInterval) (by simp)).trans ?_
    dsimp only
    split
    · exact .refl _
    · exact (sendFullAck_rxStep _ now).sends

theorem onNakTimer_sends (c : Connection) (now : Instant) : Sends Packet.IsRoutine c (c.onNakTimer now) := by
  unfold onNakTimer
  split
  · exact .refl c
  · refine (Sends.timer c (.setTimer .nak c.nakInterval) (by simp)).trans ?_
    dsimp only
    split
    · exact .refl _
    · split
      · exact .refl _
      · exact (sendNak_rxStep _ _ now).sends

theorem onHandshakeTimer_sends (c : Connection) (now : Instant) :
    Sends Packet.IsRoutine c (c.onHandshakeTimer now) := by
  unfold onHandshakeTimer
  split
  · exact .refl c
  · split
    · exact ((fail_sends c).trans (.timer _ _ (by simp))).trans (.event _ _)
    · split
      · next bytes hb =>
        exact (Sends.output c _ fun d hd => .inl (.inr (Output.sendDatagram.inj hd ▸ hb))).trans
          (.timer _ _ (by simp))
      · exact .refl c

theorem onPeerIdleTimer_sends (c : Connection) (now : Instant) : Sends Packet.IsRoutine c (c.onPeerIdleTimer now) := by
  unfold onPeerIdleTimer
  split
  · exact .refl c
  · dsimp only
    split
    · exact ((fail_sends c).trans (clearArqTimers_sends _)).trans (.event _ _)
    · exact .timer c _ (by simp)

theorem onLingerTimer_sends (c : Connection) (now : Instant) : Sends Packet.IsRoutine c (c.onLingerTimer now) := by
  unfold onLingerTimer
  split
  · exact finalizeShutdown_sends c now
  · exact .refl c

theorem answerAck_sends (c : Connection) (ack : Ack) (now : Instant) :
    Sends Packet.IsRoutine c (c.answerAck ack now) := by
  unfold answerAck
  split
  · exact .emitControl c _ now fun _ _ => trivial
  · exact .refl c

/-! ## Answers of the key exchange -/

theorem onKmReq_sends (P : Primitives) (c : Connection) (cif : Bytes) (now : Instant) :
    Sends Packet.IsRoutine c (c.onKmReq P cif now) := by
  have hset : ∀ crypto, Sends Packet.IsRoutine c (c.setCrypto crypto) := fun _ => .same rfl rfl
  unfold onKmReq
  split
  · split
    · exact .refl c
    · refine (hset _).trans (.emitControl _ _ now fun _ _ => ?_)
      exact ⟨rfl, by decide⟩
  · exact .refl c

theorem onKmRsp_sends (c : Connection) (cif : Bytes) : Sends Packet.IsRoutine c (c.onKmRsp cif) := by
  unfold onKmRsp
  split
  · exact .same rfl rfl
  · exact .refl c

end Connection

end Srtrust
