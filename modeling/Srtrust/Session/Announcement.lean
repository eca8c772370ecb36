import Srtrust.Session.Datagrams

/-! # Key Material requests on the wire

A key is announced in a control packet of a user-defined type. Of all the datagrams a call can queue only
those of `provide_rekey` and of its retransmissions are of that type, and what they carry is the message
that waits to be confirmed. -/
namespace Srtrust
open BigEndian
set_option autoImplicit false

/-! ## Packets -/

/-- A Key Material request carries one of these messages. -/
def Packet.Requests (named : Bytes → Prop) : Packet → Prop
  | .control { body := .raw .userDefined subtype _ cif, .. } => subtype = extKmreq → named cif
  | _ => True

theorem Encodes.requested {named : Bytes → Prop} {d : Bytes} (h : Encodes (Packet.Requests named) d)
    {ctrl : ControlPacket} {info : UInt32} {cif : Bytes} (hdec : Packet.decode d = .ok (.control ctrl))
    (hbody : ctrl.body = .raw .userDefined extKmreq info cif) : named cif := by
  obtain ⟨packet, hp, henc⟩ := h
  cases packet with
  | data packet =>
    obtain rfl := Option.some.inj henc
    rw [Packet.decode_data] at hdec
    simp at hdec
  | control sent =>
    obtain ⟨timestamp, dest, body⟩ := sent
    simp only [Packet.encode, Option.bind_eq_bind, Option.bind_eq_some_iff] at henc
    obtain ⟨cif₀, hcif, hbytes⟩ := henc
    obtain rfl := Option.some.inj hbytes
    rw [Packet.decode_control _ _ _ _ (Packet.toWire_lt body)] at hdec
    obtain ⟨t, ht⟩ := body.toWire_type
    rw [ht] at hdec
    cases hd : ControlBody.decode t.toRaw body.toWire.2.1 body.toWire.2.2 cif₀ with
    | error e => simp [hd] at hdec
    | ok body' =>
      simp only [hd, Except.ok.injEq, Packet.control.injEq] at hdec
      obtain rfl := hdec
      obtain rfl : body' = .raw .userDefined extKmreq info cif := hbody
      obtain ⟨rfl, hsub, rfl⟩ := ControlBody.userDefined_of_decode hd
      cases body with
      | raw ctype subtype info' cif' =>
        obtain rfl : ctype = .userDefined := ControlType.toRaw_injective ht
        obtain rfl : cif' = cif := Option.some.inj hcif
        exact hp hsub.symm
      | _ => simp [ControlBody.toWire, ControlType.toRaw] at ht

/-! ## What a call puts on the wire -/

namespace Connection

/-- Every Key Material request that is new carries one of these messages. -/
def Utters (named : Bytes → Prop) (c c' : Connection) : Prop :=
  ∀ d, c'.Said d → c.Said d ∨ Encodes (Packet.Requests named) d

section
variable {named : Bytes → Prop}

theorem Sends.utters {c c' : Connection} (h : Sends Packet.IsRoutine c c') : Utters named c c' :=
  h.mono fun p hp => by
    rcases p with _ | ⟨_, _, _ | _ | _ | _ | _ | _ | _ | _ | _ | ⟨ctype, _⟩⟩
    case control.raw => cases ctype <;> simp_all [Packet.IsRoutine, Packet.Requests]
    all_goals simp_all [Packet.IsRoutine, Packet.Requests]

theorem TxStep.utters {c c' : Connection} (h : TxStep c c') : Utters named c c' :=
  Sends.ofGrows h.link h.grows fun p hp => by
    rcases p with _ | ⟨_, _, _ | _ | _ | _ | _ | _ | _ | _ | _ | _⟩ <;>
      simp_all [Packet.IsSending, ControlBody.IsDropReq, Packet.Requests]

theorem pace_utters (P : Primitives) (c : Connection) (now : Instant) : Utters named c (c.pace P now) := by
  rcases pace_cases P c now with h | ⟨d, hd, h⟩
  · rw [h]
    exact Sends.refl c
  · rw [h]
    exact Sends.trans hd.utters (schedulePacing_sends d now).utters

theorem send_utters (P : Primitives) (c : Connection) (payload : Bytes) (now : Instant) :
    Utters named c (c.perform P (.send payload) now) := by
  rcases perform_send_cases P c payload now with h | ⟨-, -, h⟩
  · rw [h]
    exact Sends.refl c
  · rw [h]
    rcases submit_cases P c payload now with hd | ⟨d, hd, h⟩
    · exact hd.utters
    · rw [h]
      exact Sends.trans hd.utters (schedulePacing_sends d now).utters

theorem onAck_utters (c : Connection) (ack : Ack) (now : Instant) : Utters named c (c.onAck ack now) := by
  rw [onAck_eq]
  exact Sends.trans (settleAck_feedback c ack now).txStep.utters
    ((finishCloseIfDrained_sends _ now).trans (answerAck_sends _ ack now)).utters

/-! ### The key exchange -/

theorem emitKm_utters (c : Connection) (subtype : UInt16) (cif : Bytes) (now : Instant)
    (h : subtype = extKmreq → named cif) : Utters named c (c.emitKm subtype cif now) :=
  Sends.emitControl c _ now fun _ _ => h

theorem resendPendingKm_utters (c : Connection) (now : Instant)
    (h : ∀ cif, c.keys.pendingKm = some cif → named cif) : Utters named c (c.resendPendingKm now) := by
  have hkeys : ∀ keys, Utters named c { c with keys := keys } := fun _ => Sends.same rfl rfl
  unfold resendPendingKm
  split
  · exact Sends.refl c
  · next km hkm =>
    split
    · exact hkeys _
    · exact Sends.trans (hkeys _) (emitKm_utters _ _ _ now fun _ => h km hkm)

theorem onKeepaliveTimer_utters (c : Connection) (now : Instant)
    (h : ∀ cif, c.keys.pendingKm = some cif → named cif) : Utters named c (c.onKeepaliveTimer now) := by
  unfold onKeepaliveTimer
  split
  · exact Sends.refl c
  · refine Sends.trans (resendPendingKm_utters c now h) ?_
    dsimp only
    split
    · exact (Sends.emitControl _ .keepalive now fun _ _ => trivial).trans (.timer _ _ (by simp))
    · exact Sends.timer _ _ (by simp)

/-- The key a call to `provide_rekey` announces is the one it waits to have confirmed. -/
theorem provideRekey_utters (P : Primitives) (c : Connection) (sek : Bytes) (now : Instant)
    (h : ∀ cif, (c.provideRekey P sek now).keys.pendingKm = some cif → named cif) :
    Utters named c (c.provideRekey P sek now) := by
  have hset : ∀ crypto, Utters named c (c.setCrypto crypto) := fun _ => Sends.same rfl rfl
  have hawait : ∀ (c : Connection) km, Utters named c (c.awaitKmRsp km) := fun _ _ => Sends.same rfl rfl
  unfold provideRekey at h ⊢
  split
  · exact Sends.refl c
  · next hp =>
    rw [if_neg hp] at h
    split
    · next henc hcrypto =>
      simp only [henc, hcrypto] at h
      split
      · exact Sends.refl c
      · next hsalt =>
        simp only [hsalt] at h
        split
        · exact Sends.panicked c
        · next keys km hraw =>
          simp only [hraw] at h
          exact Sends.trans (Sends.trans (hset _) (emitKm_utters _ _ _ now fun _ => h _ rfl)) (hawait _ _)
    · exact Sends.refl c

theorem feedRecvBuf_utters (P : Primitives) (c : Connection) (datagram : Bytes) (now : Instant) :
    Utters named c (c.feedRecvBuf P datagram now) := by
  have hrecv : Utters named c { c with lastRecvAny := now } := Sends.same rfl rfl
  unfold feedRecvBuf
  split
  · exact Sends.refl c
  · next packet _ =>
    split
    · exact (onHandshakePacket_sends c packet now).utters
    · exact (onHandshakePacket_sends c packet now).utters
    · refine Sends.trans hrecv ?_
      generalize ({ c with lastRecvAny := now } : Connection) = c
      cases packet with
      | data data => exact (onData_rxStep P c data now).sends.utters
      | control ctrl =>
        exact onControl_cases P c ctrl now (fun ack _ => onAck_utters c ack now)
          (fun n => (onAckack_rxStep c n now).sends.utters)
          (fun loss _ => (onNak_feedback c loss now).txStep.utters) (onShutdown_sends c).utters
          (fun _ first last _ => (onDropreq_rxStep c first last now).sends.utters)
          (fun cif => (onKmReq_sends P c cif now).utters) (fun cif => (onKmRsp_sends c cif).utters)
          (fun bytes hb => Sends.output c _ fun d hd => .inl (.inr (Output.sendDatagram.inj hd ▸ hb))) (Sends.refl c)
    · exact Sends.refl c

/-- A Key Material request carries the message that is pending before the call, or after it. -/
theorem perform_utters (P : Primitives) (c : Connection) (call : Call) (now : Instant) :
    Utters (fun cif => c.keys.pendingKm = some cif ∨ (c.perform P call now).keys.pendingKm = some cif) c
      (c.perform P call now) := by
  cases call with
  | feedRecvBuf datagram => exact feedRecvBuf_utters P c datagram now
  | send payload => exact send_utters P c payload now
  | close => exact (close_sends c now).utters
  | provideRekey sek => exact provideRekey_utters P c sek now fun cif hcif => .inr hcif
  | pollEvent => exact Sends.same rfl rfl
  | handleTimer id =>
    cases id with
    | handshake => exact (onHandshakeTimer_sends c now).utters
    | ack => exact (onAckTimer_sends c now).utters
    | nak => exact (onNakTimer_sends c now).utters
    | exp => exact (onExpTimer_feedback c now).txStep.utters
    | tsbpd => exact (deliverTsbpd_rxStep c now).sends.utters
    | sndPacing => exact pace_utters P c now
    | linger => exact (onLingerTimer_sends c now).utters
    | keepalive => exact onKeepaliveTimer_utters c now fun cif hcif => .inl hcif
    | peerIdle => exact (onPeerIdleTimer_sends c now).utters

end

end Connection

end Srtrust
