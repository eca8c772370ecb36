import Srtrust.Session.Datagrams
import Srtrust.Session.Dispatch
import Srtrust.Session.Hosting

/-! # Where outgoing data comes from

Every data packet on the wire is a fragment of an accepted message, such a packet sent again, or the
parity of an FEC group. The message number tells them apart: the counter never reaches zero, which
marks parity. `Manifest` follows the fragments of the accepted messages through the pacing queue. -/
namespace Srtrust
open BigEndian
set_option autoImplicit false

/-! ## Message numbers -/

namespace Connection

/-- The counter `send` uses for the `i`-th accepted message. -/
def messageCounter (i : ℕ) : UInt32 := followingMessage^[i] 1

/-- What the packets of the `i`-th message carry. -/
def messageNumber (i : ℕ) : MsgNumber := MsgNumber.new (messageCounter i)

theorem messageCounter_succ (i : ℕ) : messageCounter (i + 1) = followingMessage (messageCounter i) :=
  Function.iterate_succ_apply' followingMessage i 1

theorem followingMessage_cases {n : UInt32} (h : n.toNat < 0x4000000) :
    n.toNat = 0x3FFFFFF ∧ followingMessage n = 1
      ∨ n.toNat < 0x3FFFFFF ∧ (followingMessage n).toNat = n.toNat + 1 := by
  have hsum : (n + 1).toNat = n.toNat + 1 := by
    rw [UInt32.toNat_add, UInt32.toNat_one]
    omega
  unfold followingMessage
  simp only [MsgNumber.new, hsum]
  by_cases hwrap : n.toNat = 0x3FFFFFF
  · rw [if_pos (by omega)]
    exact .inl ⟨hwrap, rfl⟩
  · rw [if_neg (by omega)]
    exact .inr ⟨by omega, hsum⟩

theorem messageCounter_bounds (i : ℕ) : 1 ≤ (messageCounter i).toNat ∧ (messageCounter i).toNat < 0x4000000 := by
  induction i with
  | zero => decide
  | succ i ih =>
    rw [messageCounter_succ]
    rcases followingMessage_cases ih.2 with ⟨-, he⟩ | ⟨hlt, he⟩
    · rw [he]
      decide
    · rw [he]
      omega

theorem messageNumber_value (i : ℕ) : (messageNumber i).value = (messageCounter i).toNat := by
  have h := (messageCounter_bounds i).2
  simp only [messageNumber, MsgNumber.new]
  omega

theorem messageNumber_ne_zero (i : ℕ) : (messageNumber i).value ≠ 0 := by
  have h := (messageCounter_bounds i).1
  rw [messageNumber_value]
  omega

theorem messageNumber_succ_ne (i : ℕ) : messageNumber (i + 1) ≠ messageNumber i := by
  intro h
  have hv := congrArg MsgNumber.value h
  rw [messageNumber_value, messageNumber_value, messageCounter_succ] at hv
  rcases followingMessage_cases (messageCounter_bounds i).2 with ⟨hlast, he⟩ | ⟨-, he⟩
  · rw [he, hlast] at hv
    exact absurd hv (by decide)
  · omega

end Connection

/-! ## Packets -/

/-- A data packet that carries this fragment; `clear` says that there is no cipher. -/
structure DataPacket.Carries (clear : Prop) (fragment : Fragment) (p : DataPacket) : Prop where
  position : p.position = fragment.position
  messageNumber : p.messageNumber = MsgNumber.new fragment.message
  original : p.retransmitted = false
  payload : clear → p.encryption = .none ∧ p.payload = fragment.payload

theorem DataPacket.Carries.mono {clear clear' : Prop} (h : clear' → clear) {fragment : Fragment} {p : DataPacket}
    (hp : p.Carries clear fragment) : p.Carries clear' fragment :=
  ⟨hp.position, hp.messageNumber, hp.original, hp.payload ∘ h⟩

/-- The data packet of an FEC parity. -/
def DataPacket.IsParity (p : DataPacket) : Prop :=
  p.position = .single ∧ p.encryption = .none ∧ p.retransmitted = false
    ∧ p.messageNumber = MsgNumber.new 0 ∧ ∃ parity : FecParity, p.payload = parity.encode Fec.rowIndex

/-- Bodies that are written as what they are: a raw body has a type of its own. -/
def ControlBody.Formed : ControlBody → Prop
  | .raw controlType _ _ _ => controlType = .userDefined
  | _ => True

/-- Control packets, of which drop requests name originals; parity where there is FEC; originals, and
originals sent again. -/
def Packet.Aired (fec : Bool) (originals : List DataPacket) : Packet → Prop
  | .control ctrl => ctrl.body.Formed ∧ ctrl.body.Retracts originals
  | .data p => fec = true ∧ p.IsParity
    ∨ ∃ original ∈ originals, p = original ∨ p = { original with retransmitted := true }

theorem Packet.Aired.mono {fec : Bool} {originals originals' : List DataPacket} (h : originals ⊆ originals')
    {p : Packet} (hp : p.Aired fec originals) : p.Aired fec originals' := by
  cases p with
  | control ctrl => exact ⟨hp.1, hp.2.mono h⟩
  | data p =>
    rcases hp with hp | ⟨original, hm, hp⟩
    · exact .inl hp
    · exact .inr ⟨original, h hm, hp⟩

/-- Control packets, of which drop requests name buffered data, and buffered data sent again. -/
def Packet.Quoted (buffered : List DataPacket) : Packet → Prop
  | .control ctrl => ctrl.body.Formed ∧ ctrl.body.Retracts buffered
  | .data p => ∃ original ∈ buffered, p = { original with retransmitted := true }

theorem Packet.Quoted.mono {buffered buffered' : List DataPacket} (h : buffered ⊆ buffered') {p : Packet}
    (hp : p.Quoted buffered) : p.Quoted buffered' := by
  cases p with
  | control ctrl => exact ⟨hp.1, hp.2.mono h⟩
  | data p =>
    obtain ⟨original, hm, hp⟩ := hp
    exact ⟨original, h hm, hp⟩

theorem Packet.Quoted.aired {fec : Bool} {originals : List DataPacket} {p : Packet} (hp : p.Quoted originals) :
    p.Aired fec originals := by
  cases p with
  | control _ => exact hp
  | data p =>
    obtain ⟨original, hm, hp⟩ := hp
    exact .inr ⟨original, hm, .inr hp⟩

/-- Routine packets retract nothing. -/
theorem Packet.IsRoutine.quoted {p : Packet} (h : p.IsRoutine) (buffered : List DataPacket) :
    p.Quoted buffered := by
  cases p with
  | data _ => exact h.elim
  | control ctrl =>
    obtain ⟨timestamp, dest, body⟩ := ctrl
    cases body with
    | dropReq _ _ _ => exact h.elim
    | raw _ _ _ _ => exact ⟨h.1, fun _ _ _ he => ControlBody.noConfusion he⟩
    | _ => exact ⟨trivial, fun _ _ _ he => ControlBody.noConfusion he⟩

theorem Encodes.mono {kind kind' : Packet → Prop} (h : ∀ p, kind p → kind' p) {d : Bytes}
    (hd : Encodes kind d) : Encodes kind' d := by
  obtain ⟨p, hp, henc⟩ := hd
  exact ⟨p, h p hp, henc⟩

/-- A datagram that reads as a data packet encodes that packet. -/
theorem Encodes.data {kind : Packet → Prop} {d : Bytes} (h : Encodes kind d) {p : DataPacket}
    (hdec : Packet.decode d = .ok (.data p)) : kind (.data p) := by
  obtain ⟨packet, hp, henc⟩ := h
  cases packet with
  | data packet =>
    obtain rfl := Option.some.inj henc
    rw [Packet.decode_data] at hdec
    obtain rfl := Packet.data.inj (Except.ok.inj hdec)
    exact hp
  | control sent =>
    obtain ⟨timestamp, dest, body⟩ := sent
    simp only [Packet.encode, Option.bind_eq_bind, Option.bind_eq_some_iff] at henc
    obtain ⟨cif, -, hbytes⟩ := henc
    obtain rfl := Option.some.inj hbytes
    rw [Packet.decode_control _ _ _ _ (Packet.toWire_lt body)] at hdec
    cases hd : ControlBody.decode body.toWire.1 body.toWire.2.1 body.toWire.2.2 cif <;>
      simp [hd] at hdec

/-- A datagram that reads as a control packet, other than a handshake, encodes that packet. -/
theorem Encodes.control {kind : Packet → Prop} (hkind : ∀ ctrl, kind (.control ctrl) → ctrl.body.Formed)
    {d : Bytes} (h : Encodes kind d) {ctrl : ControlPacket} (hdec : Packet.decode d = .ok (.control ctrl))
    (hnot : ∀ hs, ctrl.body ≠ .handshake hs) : kind (.control ctrl) := by
  obtain ⟨packet, hp, henc⟩ := h
  cases packet with
  | data packet =>
    obtain rfl := Option.some.inj henc
    rw [Packet.decode_data] at hdec
    simp at hdec
  | control sent =>
    by_cases hsent : ∃ hs, sent.body = .handshake hs
    · obtain ⟨hs, hsent⟩ := hsent
      obtain ⟨timestamp, dest, body⟩ := sent
      obtain rfl : body = .handshake hs := hsent
      simp only [Packet.encode, Option.bind_eq_bind, Option.bind_eq_some_iff] at henc
      obtain ⟨cif, -, hbytes⟩ := henc
      obtain rfl := Option.some.inj hbytes
      rw [Packet.decode_control _ _ _ _ (Packet.toWire_lt _)] at hdec
      simp only [ControlBody.toWire, ControlBody.decode, ControlType.fromRaw_toRaw, bind, Except.bind] at hdec
      cases hdecode : Handshake.decode cif with
      | error e => simp [hdecode] at hdec
      | ok hs' =>
        simp only [hdecode, Except.ok.injEq, Packet.control.injEq] at hdec
        exact absurd (congrArg ControlPacket.body hdec).symm (hnot hs')
    · have hconforming : (Packet.control sent).Conforming := by
        have hformed := hkind sent hp
        change sent.body.Conforming
        cases hbody : sent.body with
        | handshake hs => exact absurd ⟨hs, hbody⟩ hsent
        | raw _ _ _ _ =>
          rw [hbody] at hformed
          exact hformed
        | _ => trivial
      obtain ⟨bytes, hbytes, hsame⟩ := Packet.decode_encode _ hconforming
      obtain rfl : bytes = d := Option.some.inj (hbytes.symm.trans henc)
      rw [hsame] at hdec
      rw [← Except.ok.inj hdec]
      exact hp

namespace Connection

/-! ## Work that originates nothing -/

/-- The original data packets sent so far. -/
def originals (c : Connection) : List DataPacket :=
  c.trace.filterMap fun t => match t with | .originated p => some p | _ => none

/-- What originating leaves in the history, seen from what does not originate. -/
theorem originals_append {c c' : Connection} {ts : List Trace} (h : c'.trace = c.trace ++ ts)
    (hts : ∀ t ∈ ts, ¬ t.IsSent) : c'.originals = c.originals := by
  have hnone : ts.filterMap (fun t => match t with | .originated p => some p | _ => none)
      = ([] : List DataPacket) := by
    apply List.filterMap_eq_nil_iff.mpr
    intro t ht
    have hno := hts t ht
    cases t <;> simp_all [Trace.IsSent]
  rw [originals, h, List.filterMap_append, hnone, List.append_nil]
  rfl

/-- Work that originates nothing: the data it puts on the wire was buffered before. -/
structure Quotes (c c' : Connection) : Prop where
  nextMessage : c'.tx.nextMessage = c.tx.nextMessage
  sendQueue : c'.tx.sendQueue = c.tx.sendQueue
  paced : c'.tx.liveCc.isSome = c.tx.liveCc.isSome
  fec : c'.tx.fecSend.isSome = c.tx.fecSend.isSome
  keyed : c.keys.crypto.isSome → c'.keys.crypto.isSome
  outstanding : c'.outstanding <:+ c.outstanding
  trace : ∃ ts, c'.trace = c.trace ++ ts ∧ ∀ t ∈ ts, ¬ t.IsSent
  sends : Sends (Packet.Quoted c.outstanding) c c'

namespace Quotes

theorem refl (c : Connection) : Quotes c c :=
  ⟨rfl, rfl, rfl, rfl, id, List.suffix_rfl, ⟨[], by simp, by simp⟩, .refl c⟩

theorem trans {a b c : Connection} (h : Quotes a b) (h' : Quotes b c) : Quotes a c := by
  obtain ⟨ts, ht, hts⟩ := h.trace
  obtain ⟨ts', ht', hts'⟩ := h'.trace
  refine ⟨h'.nextMessage.trans h.nextMessage, h'.sendQueue.trans h.sendQueue, h'.paced.trans h.paced,
    h'.fec.trans h.fec, h'.keyed ∘ h.keyed, h'.outstanding.trans h.outstanding,
    ⟨ts ++ ts', by rw [ht', ht, List.append_assoc], ?_⟩,
    h.sends.trans (h'.sends.mono fun _ hp => hp.mono h.outstanding.subset)⟩
  intro t hm
  exact (List.mem_append.mp hm).elim (hts t) (hts' t)

/-- The sender untouched. -/
theorem ofTx {c c' : Connection} (htx : c'.tx = c.tx) (hkeyed : c.keys.crypto.isSome → c'.keys.crypto.isSome)
    (ht : ∃ ts, c'.trace = c.trace ++ ts ∧ ∀ t ∈ ts, ¬ t.IsSent)
    (hs : Sends (Packet.Quoted c.outstanding) c c') : Quotes c c' := by
  refine ⟨by rw [htx], by rw [htx], by rw [htx], by rw [htx], hkeyed, ?_, ht, hs⟩
  rw [Connection.outstanding, htx]
  exact List.suffix_rfl

end Quotes

theorem Sends.quoted {c c' : Connection} (h : Sends Packet.IsRoutine c c') (buffered : List DataPacket) :
    Sends (Packet.Quoted buffered) c c' := h.mono fun _ hp => hp.quoted buffered

theorem panicked_not_isSent {ts : List Trace} (h : ∀ t ∈ ts, t = .panicked) : ∀ t ∈ ts, ¬ t.IsSent := by
  intro t hm
  rw [h t hm]
  exact id

theorem RxStep.quotes {c c' : Connection} (h : RxStep c c') : Quotes c c' := by
  obtain ⟨ts, ht, hts⟩ := h.grows.trace
  refine .ofTx h.tx ?_ ⟨ts, ht, fun t hm => (hts t hm).not_isSent⟩ (h.sends.quoted _)
  rw [h.keys]
  exact id

theorem LinkStep.quotes {c c' : Connection} (h : LinkStep c c') (hs : Sends Packet.IsRoutine c c') :
    Quotes c c' := by
  obtain ⟨ts, ht, hts⟩ := h.trace
  refine .ofTx h.tx ?_ ⟨ts, ht, panicked_not_isSent hts⟩ (hs.quoted _)
  rw [h.keys]
  exact id

theorem KeyStep.quotes {c c' : Connection} (h : KeyStep c c')
    (hkeyed : c.keys.crypto.isSome → c'.keys.crypto.isSome) : Quotes c c' := by
  obtain ⟨ts, ht, hts⟩ := h.grows.trace
  refine .ofTx h.tx hkeyed ⟨ts, ht, panicked_not_isSent hts⟩ (.ofGrows h.link h.grows fun p hp => ?_)
  cases p with
  | data _ => exact hp.elim
  | control ctrl =>
    obtain ⟨timestamp, dest, body⟩ := ctrl
    cases body with
    | raw controlType _ _ _ =>
      cases controlType with
      | userDefined => exact ⟨rfl, fun _ _ _ he => ControlBody.noConfusion he⟩
      | _ => exact hp.elim
    | ackAck _ => exact ⟨trivial, fun _ _ _ he => ControlBody.noConfusion he⟩
    | keepalive => exact ⟨trivial, fun _ _ _ he => ControlBody.noConfusion he⟩
    | _ => exact hp.elim

theorem provideRekey_quotes (P : Primitives) (c : Connection) (sek : Bytes) (now : Instant) :
    Quotes c (c.provideRekey P sek now) := by
  refine (provideRekey_keyStep P c sek now).quotes fun h => ?_
  unfold provideRekey
  split
  · exact h
  · split
    · split
      · exact h
      · split
        · exact h
        · simp only [awaitKmRsp, emitKm_keys]
          rfl
    · exact h

theorem onKmReq_quotes (P : Primitives) (c : Connection) (cif : Bytes) (now : Instant) :
    Quotes c (c.onKmReq P cif now) := by
  refine (onKmReq_keyStep P c cif now).quotes fun h => ?_
  unfold onKmReq
  split
  · split
    · exact h
    · rw [emitKm_keys]
      rfl
  · exact h

theorem onKmRsp_quotes (c : Connection) (cif : Bytes) : Quotes c (c.onKmRsp cif) := by
  refine (onKmRsp_keyStep c cif).quotes fun h => ?_
  unfold onKmRsp
  split <;> exact h

theorem resendPendingKm_quotes (c : Connection) (now : Instant) : Quotes c (c.resendPendingKm now) := by
  refine (resendPendingKm_keyStep c now).quotes fun h => ?_
  unfold resendPendingKm
  split
  · exact h
  · split
    · exact h
    · rw [emitKm_keys]
      exact h

theorem Feedback.quotes {ids : List TimerId} {c c' : Connection} (h : Feedback ids c c') : Quotes c c' := by
  obtain ⟨ts, ht, hts⟩ := h.grows.trace
  have horigin := h.origin
  simp only [Sender.origin, Prod.mk.injEq] at horigin
  refine ⟨horigin.2.1, horigin.2.2.1, horigin.2.2.2.2.2.2, by rw [horigin.2.2.2.2.1], ?_, h.outstanding,
    ⟨ts, ht, panicked_not_isSent hts⟩, h.sends.mono fun p hp => ?_⟩
  · rw [h.keys]
    exact id
  · cases p with
    | data _ => exact hp
    | control ctrl =>
      obtain ⟨timestamp, dest, body⟩ := ctrl
      cases body with
      | dropReq _ _ _ => exact ⟨trivial, hp.2⟩
      | _ => exact hp.1.elim

theorem onAck_quotes (c : Connection) (ack : Ack) (now : Instant) : Quotes c (c.onAck ack now) := by
  rw [onAck_eq]
  exact ((settleAck_feedback c ack now).quotes.trans
    ((finishCloseIfDrained_linkStep _ now).quotes (finishCloseIfDrained_sends _ now))).trans
    ((answerAck_linkStep _ ack now).quotes (answerAck_sends _ ack now))

theorem onShutdown_quotes (c : Connection) : Quotes c c.onShutdown :=
  (flushLoop_rxStep _ c).quotes.trans
    ((((fail_linkStep _).trans (clearArqTimers_linkStep _)).trans (.event _ _ id)).quotes
      (((fail_sends _).trans (clearArqTimers_sends _)).trans (.event _ _)))

theorem onAckTimer_quotes (c : Connection) (now : Instant) : Quotes c (c.onAckTimer now) := by
  have harm : ∀ after, Quotes c (c.output (.setTimer .ack after)) := fun _ =>
    (LinkStep.output c _).quotes (.timer c _ (by simp))
  unfold onAckTimer
  split
  · exact .refl c
  · refine (harm ackInterval).trans ?_
    dsimp only
    split
    · exact .refl _
    · exact (sendFullAck_rxStep _ now).quotes

theorem onNakTimer_quotes (c : Connection) (now : Instant) : Quotes c (c.onNakTimer now) := by
  have harm : ∀ after, Quotes c (c.output (.setTimer .nak after)) := fun _ =>
    (LinkStep.output c _).quotes (.timer c _ (by simp))
  unfold onNakTimer
  split
  · exact .refl c
  · refine (harm c.nakInterval).trans ?_
    dsimp only
    split
    · exact .refl _
    · split
      · exact .refl _
      · exact (sendNak_rxStep _ _ now).quotes

theorem onKeepaliveTimer_quotes (c : Connection) (now : Instant) : Quotes c (c.onKeepaliveTimer now) := by
  have htimer : ∀ (c : Connection) after, Quotes c (c.output (.setTimer .keepalive after)) := fun c _ =>
    (LinkStep.output c _).quotes (.timer c _ (by simp))
  unfold onKeepaliveTimer
  split
  · exact .refl c
  · refine (resendPendingKm_quotes c now).trans ?_
    dsimp only
    split
    · exact ((LinkStep.emitControl _ .keepalive now).quotes
        (.emitControl _ .keepalive now fun _ _ => trivial)).trans (htimer _ _)
    · exact htimer _ _

theorem onHandshakePacket_quotes (c : Connection) (packet : Packet) (now : Instant)
    (hs : c.link.state = .induction ∨ c.link.state = .conclusion) :
    Quotes c (c.onHandshakePacket packet now) := by
  have hsends := onHandshakePacket_sends c packet now
  rcases onHandshakePacket_linkStep c packet now hs with hlink | ⟨negotiated, -, he⟩
  · exact hlink.quotes hsends
  · refine .ofTx ?_ ?_ ⟨[], ?_, by simp⟩ (hsends.quoted _)
    · rw [he]
      simp only [enterConnected, event, output]
    · rw [he]
      simp only [enterConnected, event, output, imp_self]
    · rw [he]
      simp only [enterConnected, event, output, List.append_nil]

theorem feedRecvBuf_quotes (P : Primitives) (c : Connection) (datagram : Bytes) (now : Instant) :
    Quotes c (c.feedRecvBuf P datagram now) := by
  have hrecv : ∀ c : Connection, Quotes c { c with lastRecvAny := now } := fun _ =>
    .ofTx rfl id ⟨[], by simp, by simp⟩ (.same rfl rfl)
  unfold feedRecvBuf
  cases Packet.decode datagram with
  | error _ => exact .refl c
  | ok packet =>
    cases hs : c.link.state with
    | induction => exact onHandshakePacket_quotes c packet now (.inl hs)
    | conclusion => exact onHandshakePacket_quotes c packet now (.inr hs)
    | failed => exact .refl c
    | connected =>
      refine (hrecv c).trans ?_
      generalize ({ c with lastRecvAny := now } : Connection) = c
      cases packet with
      | data data => exact (onData_rxStep P c data now).quotes
      | control ctrl =>
        exact onControl_cases P c ctrl now (fun ack _ => onAck_quotes c ack now)
          (fun n => (onAckack_rxStep c n now).quotes) (fun loss _ => (onNak_feedback c loss now).quotes)
          (onShutdown_quotes c) (fun _ first last _ => (onDropreq_rxStep c first last now).quotes)
          (fun cif => onKmReq_quotes P c cif now) (fun cif => onKmRsp_quotes c cif)
          (fun bytes hb => (LinkStep.output c _).quotes
            (.output c _ fun d hd => .inl (.inr (Output.sendDatagram.inj hd ▸ hb)))) (.refl c)

/-- Only accepting a message and releasing queued fragments originate anything. -/
theorem perform_quotes (P : Primitives) (c : Connection) (call : Call) (now : Instant)
    (hsend : ∀ payload, call ≠ .send payload) (hpace : call ≠ .handleTimer .sndPacing) :
    Quotes c (c.perform P call now) := by
  cases call with
  | feedRecvBuf datagram => exact feedRecvBuf_quotes P c datagram now
  | send payload => exact absurd rfl (hsend payload)
  | close => exact (close_linkStep c now).quotes (close_sends c now)
  | provideRekey sek => exact provideRekey_quotes P c sek now
  | pollEvent => exact .ofTx rfl id ⟨[], by simp [perform], by simp⟩ (.same rfl rfl)
  | handleTimer id =>
    cases id with
    | handshake => exact (onHandshakeTimer_linkStep c now).quotes (onHandshakeTimer_sends c now)
    | ack => exact onAckTimer_quotes c now
    | nak => exact onNakTimer_quotes c now
    | exp => exact (onExpTimer_feedback c now).quotes
    | tsbpd => exact (deliverTsbpd_rxStep c now).quotes
    | sndPacing => exact absurd rfl hpace
    | linger => exact (onLingerTimer_linkStep c now).quotes (onLingerTimer_sends c now)
    | keepalive => exact onKeepaliveTimer_quotes c now
    | peerIdle => exact (onPeerIdleTimer_linkStep c now).quotes (onPeerIdleTimer_sends c now)

/-! ## The manifest -/

/-- The fragments of the accepted messages, each with the index of its message. A message comes with
the fragment size at the time it was accepted, which depends on the cipher in use. -/
def outgoing (sent : List (ℕ × Bytes)) : List (ℕ × Fragment) :=
  sent.zipIdx.flatMap fun m =>
    (fragmentPayload m.1.1 m.1.2 (messageCounter m.2)).map fun fragment => (m.2, fragment)

theorem outgoing_append (sent : List (ℕ × Bytes)) (size : ℕ) (payload : Bytes) :
    outgoing (sent ++ [(size, payload)]) = outgoing sent
      ++ (fragmentPayload size payload (messageCounter sent.length)).map fun fragment => (sent.length, fragment) := by
  simp [outgoing, List.zipIdx_append]

theorem fragmentPayload_mem (size : ℕ) (payload : Bytes) (message : UInt32) :
    ∀ fragment ∈ fragmentPayload size payload message,
      fragment.message = message ∧ fragment.payload.length ≤ size := by
  have hloop : ∀ fuel offset, ∀ fragment ∈ fragmentLoop size payload message fuel offset,
      fragment.message = message ∧ fragment.payload.length ≤ size := by
    intro fuel
    induction fuel with
    | zero => simp [fragmentLoop]
    | succ fuel ih =>
      intro offset fragment hm
      unfold fragmentLoop at hm
      split at hm
      · rcases List.mem_cons.mp hm with rfl | hm
        · refine ⟨rfl, ?_⟩
          rw [List.length_take]
          omega
        · exact ih _ fragment hm
      · simp at hm
  unfold fragmentPayload
  split
  · simpa
  · exact hloop _ _

theorem maxPayload_bounds (c : Connection) : 1 ≤ c.maxPayload ∧ c.maxPayload < 2 ^ 32 := by
  have hmtu := c.config.mtu.toNat_lt
  unfold maxPayload
  dsimp only
  omega

theorem outgoing_message {sent : List (ℕ × Bytes)} {f : ℕ × Fragment} (h : f ∈ outgoing sent) :
    f.2.message = messageCounter f.1 := by
  obtain ⟨m, -, hm⟩ := List.mem_flatMap.mp h
  obtain ⟨fragment, hf, rfl⟩ := List.mem_map.mp hm
  exact (fragmentPayload_mem _ _ _ fragment hf).1

theorem outgoing_length {sent : List (ℕ × Bytes)} {f : ℕ × Fragment} (h : f ∈ outgoing sent) :
    ∃ m ∈ sent, f.2.payload.length ≤ m.1 := by
  obtain ⟨m, hm, hfragments⟩ := List.mem_flatMap.mp h
  obtain ⟨fragment, hf, rfl⟩ := List.mem_map.mp hfragments
  exact ⟨m.1, List.fst_mem_of_mem_zipIdx hm, (fragmentPayload_mem _ _ _ fragment hf).2⟩

/-- Which fragments of the accepted messages were carried by the original packets, in their order, and
which still wait in the queue. Only a panic of the cipher can lose one. -/
structure Manifest (sent : List (ℕ × Bytes)) (emitted : List Bytes) (queue : List Fragment) (c : Connection) :
    Prop where
  sizes : ∀ m ∈ sent, 1 ≤ m.1 ∧ m.1 < 2 ^ 32
  nextMessage : c.tx.nextMessage = messageCounter sent.length
  fragments : ∃ carried waiting : List (ℕ × Fragment),
    (carried ++ waiting).Sublist (outgoing sent)
      ∧ (.panicked ∉ c.trace ∨ c.keys.crypto = none → carried ++ waiting = outgoing sent)
      ∧ waiting.map Prod.snd = queue
      ∧ List.Forall₂ (fun f p => p.Carries (c.keys.crypto = none) f.2) carried c.originals
  outstanding : c.outstanding ⊆ c.originals
  said : ∀ d, d ∈ emitted ∨ c.Said d → Encodes (Packet.Aired c.tx.fecSend.isSome c.originals) d

namespace Manifest
variable {sent : List (ℕ × Bytes)} {emitted : List Bytes} {queue : List Fragment} {c : Connection}

theorem quotes (h : Manifest sent emitted queue c) {c' : Connection} (hq : Quotes c c') :
    Manifest sent emitted queue c' := by
  obtain ⟨carried, waiting, hsub, hall, hqueue, hcarried⟩ := h.fragments
  obtain ⟨ts, ht, hts⟩ := hq.trace
  have horiginals := originals_append ht hts
  have hclear : c'.keys.crypto = none → c.keys.crypto = none := by
    intro hnone
    exact Option.not_isSome_iff_eq_none.mp fun hsome => by simpa [hnone] using hq.keyed hsome
  refine ⟨h.sizes, hq.nextMessage.trans h.nextMessage, ⟨carried, waiting, hsub, ?_, hqueue, ?_⟩, ?_, ?_⟩
  · intro hno
    refine hall (hno.imp (fun hno hpanic => hno ?_) hclear)
    rw [ht]
    exact List.mem_append_left _ hpanic
  · rw [horiginals]
    exact hcarried.imp fun _ _ hp => hp.mono hclear
  · rw [horiginals]
    exact List.Subset.trans hq.outstanding.subset h.outstanding
  · intro d hd
    rw [horiginals, hq.fec]
    rcases hd with hd | hd
    · exact h.said d (.inl hd)
    · rcases hq.sends d hd with hold | hnew
      · exact h.said d (.inr hold)
      · exact hnew.mono fun p hp => (hp.mono h.outstanding).aired

/-- A change of the sender's other fields. -/
theorem ofTx (h : Manifest sent emitted queue c) (tx : Sender) (hm : tx.nextMessage = c.tx.nextMessage)
    (hb : tx.sendBuffer = c.tx.sendBuffer) (hf : tx.fecSend = c.tx.fecSend) :
    Manifest sent emitted queue { c with tx := tx } := by
  refine ⟨h.sizes, hm.trans h.nextMessage, h.fragments, ?_, by rw [hf]; exact h.said⟩
  have hsame : ({ c with tx := tx } : Connection).outstanding = c.outstanding := by
    rw [Connection.outstanding, hb]
    rfl
  rw [hsame]
  exact h.outstanding

/-- A lost fragment. -/
theorem lose {fragment : Fragment} {rest : List Fragment} (h : Manifest sent emitted (fragment :: rest) c)
    (hpanic : .panicked ∈ c.trace) (hkeyed : c.keys.crypto.isSome) : Manifest sent emitted rest c := by
  obtain ⟨carried, waiting, hsub, -, hqueue, hcarried⟩ := h.fragments
  obtain ⟨lost, waiting, rfl, -, hrest⟩ := List.map_eq_cons_iff.mp hqueue
  refine ⟨h.sizes, h.nextMessage, ⟨carried, waiting, ?_, fun hno => ?_, hrest, hcarried⟩, h.outstanding, h.said⟩
  · exact ((List.sublist_cons_self lost waiting).append_left carried).trans hsub
  · rcases hno with hno | hplain
    · exact absurd hpanic hno
    · simp [hplain] at hkeyed

end Manifest

theorem fecFeed_isSome (tx : Sender) (stored : DataPacket) :
    (fecFeed tx stored).2.isSome = tx.fecSend.isSome ∧ ((fecFeed tx stored).1.isSome → tx.fecSend.isSome) := by
  unfold fecFeed
  cases tx.fecSend with
  | none => exact ⟨rfl, id⟩
  | some fec => exact ⟨rfl, fun _ => rfl⟩

theorem parityOutputs_aired (c : Connection) (stored : DataPacket) {d : Bytes}
    (h : .sendDatagram d ∈ c.parityOutputs stored) (originals : List DataPacket) :
    Encodes (Packet.Aired c.tx.fecSend.isSome originals) d := by
  unfold parityOutputs at h
  split at h
  · next parity hparity =>
    obtain rfl := Output.sendDatagram.inj (List.mem_singleton.mp h)
    have hfec := (fecFeed_isSome c.tx stored).2 (by rw [hparity]; rfl)
    exact ⟨.data _, .inl ⟨hfec, rfl, rfl, rfl, rfl, parity, rfl⟩, rfl⟩
  · simp at h

section Originates

variable {P : Primitives} {fragment : Fragment} {now : Instant} {stored : DataPacket}
  {calls : List Trace} {c c' : Connection}

theorem Originates.originals (h : Originates P fragment now stored calls c c') :
    c'.originals = c.originals ++ [stored] := by
  have hcalls : calls.filterMap (fun t => match t with | .originated p => some p | _ => none)
      = ([] : List DataPacket) := by
    rcases (sealPacket_spec h.sealed).2 with ⟨-, -, rfl⟩ | ⟨crypto, keys, -, -, rfl⟩ <;> rfl
  rw [Connection.originals, h.trace, List.filterMap_append, List.filterMap_append, hcalls]
  rfl

/-- Key accounting keeps a cipher in place. -/
theorem accountKey_keyed (h : c.keys.crypto.isSome) : c.accountKeyAndMaybeRotate.keys.crypto.isSome := by
  rcases (accountKey_keys c).2 with ⟨hsame, -⟩ | ⟨crypto, -, -, hrotated, -⟩
  · rw [hsame]
    exact h
  · rw [hrotated]
    rfl

/-- A cipher in place stays in place. -/
theorem Originates.clear (h : Originates P fragment now stored calls c c') (hnone : c'.keys.crypto = none) :
    c.keys.crypto = none := by
  rw [h.keys] at hnone
  exact Option.not_isSome_iff_eq_none.mp fun hsome => by simpa [hnone] using accountKey_keyed hsome

theorem Originates.carries (h : Originates P fragment now stored calls c c') :
    stored.Carries (c.keys.crypto = none) fragment := by
  have hheader := h.header
  refine ⟨congrArg DataPacket.position hheader, congrArg DataPacket.messageNumber hheader,
    congrArg DataPacket.retransmitted hheader, fun hnone => ?_⟩
  rw [(h.plain hnone).1]
  simp only [dataPacket, hnone]
  exact ⟨trivial, trivial⟩

theorem Originates.fec (h : Originates P fragment now stored calls c c') :
    c'.tx.fecSend.isSome = c.tx.fecSend.isSome := by
  rw [h.tx]
  exact (fecFeed_isSome c.tx stored).1

theorem Originates.sendQueue (h : Originates P fragment now stored calls c c') :
    c'.tx.sendQueue = c.tx.sendQueue := by
  rw [h.tx]
  rfl

/-- What an originated packet puts on the wire: itself, and the parity it completes. -/
theorem Originates.aired (h : Originates P fragment now stored calls c c') {d : Bytes} (hd : c'.Said d) :
    c.Said d ∨ Encodes (Packet.Aired c.tx.fecSend.isSome c'.originals) d := by
  rw [Said, h.link, h.outputs] at hd
  rcases hd with hd | hd
  · rcases List.mem_append.mp hd with hd | hd
    · exact .inl (.inl hd)
    · rw [List.append_assoc, List.singleton_append, List.mem_cons] at hd
      rcases hd with hd | hd
      · obtain rfl := Output.sendDatagram.inj hd
        refine .inr ⟨.data stored, .inr ⟨stored, ?_, .inl rfl⟩, rfl⟩
        rw [h.originals]
        simp
      · rcases List.mem_append.mp hd with hd | hd
        · exact .inr (parityOutputs_aired c stored hd _)
        · unfold armOutputs at hd
          split at hd <;> simp at hd
  · exact .inl (.inr hd)

end Originates

/-- Only a cipher can panic here. -/
theorem sendData_panicked {P : Primitives} {c : Connection} {fragment : Fragment} {now : Instant}
    (he : c.sendData P fragment now = c.panicked) : c.keys.crypto.isSome := by
  by_contra hplain
  obtain ⟨stored, calls, ho⟩ := sendData_plain P fragment now (Option.not_isSome_iff_eq_none.mp hplain)
  have hsent := congrArg (fun tx : Sender => tx.stats.packetsSent) ho.tx
  rw [he] at hsent
  exact absurd hsent (Nat.ne_of_lt (Nat.lt_succ_self _))

theorem Manifest.sendData {sent : List (ℕ × Bytes)} {emitted : List Bytes} {fragment : Fragment}
    {rest : List Fragment} {c : Connection} (h : Manifest sent emitted (fragment :: rest) c) (P : Primitives)
    (now : Instant) : Manifest sent emitted rest (c.sendData P fragment now) := by
  rcases sendData_cases P c fragment now with he | ⟨stored, calls, ho⟩
  · rw [he]
    have hquotes : Quotes c c.panicked := (LinkStep.panicked c).quotes (.panicked c)
    have hkeyed := sendData_panicked he
    exact (h.quotes hquotes).lose (by simp [panicked, record]) hkeyed
  · obtain ⟨carried, waiting, hsub, hall, hqueue, hcarried⟩ := h.fragments
    obtain ⟨first, waiting, rfl, rfl, hrest⟩ := List.map_eq_cons_iff.mp hqueue
    have horiginals := ho.originals
    have hmore : c.originals ⊆ (c.sendData P first.2 now).originals := by
      rw [horiginals]
      exact List.subset_append_left _ _
    refine ⟨h.sizes, ?_, ⟨carried ++ [first], waiting, ?_, ?_, hrest, ?_⟩, ?_, ?_⟩
    · rw [ho.tx]
      exact h.nextMessage
    · rw [List.append_assoc]
      exact hsub
    · intro hno
      rw [List.append_assoc]
      refine hall (hno.imp (fun hno hpanic => hno ?_) ho.clear)
      rw [ho.trace]
      exact List.mem_append_left _ hpanic
    · rw [horiginals]
      exact List.rel_append (hcarried.imp fun _ _ hp => hp.mono ho.clear) (.cons (ho.carries.mono ho.clear) .nil)
    · rw [ho.outstanding, horiginals]
      exact List.append_subset.mpr
        ⟨List.Subset.trans h.outstanding (List.subset_append_left _ _), List.subset_append_right _ _⟩
    · intro d hd
      rw [ho.fec]
      rcases hd with hd | hd
      · exact (h.said d (.inl hd)).mono fun _ hp => hp.mono hmore
      · rcases ho.aired hd with hold | hnew
        · exact (h.said d (.inr hold)).mono fun _ hp => hp.mono hmore
        · exact hnew

/-! ## Accepting and releasing -/

/-- Without a bandwidth limit nothing is queued. -/
def Paced (c : Connection) : Prop := c.tx.liveCc.isSome ∨ c.tx.sendQueue = []

theorem Quotes.keeps_paced {c c' : Connection} (h : Quotes c c') (hp : c.Paced) : c'.Paced := by
  rw [Paced, h.paced, h.sendQueue]
  exact hp

/-- A `send` is refused, or accepted as a message. -/
theorem perform_send_accepted (P : Primitives) (c : Connection) (payload : Bytes) (now : Instant) :
    c.perform P (.send payload) now = c ∧ c.acceptedBy P (.send payload) now = []
      ∨ c.perform P (.send payload) now = c.submit P payload now
        ∧ c.acceptedBy P (.send payload) now = [payload] := by
  simp only [perform, acceptedBy, send]
  split
  · exact .inl ⟨rfl, rfl⟩
  · exact .inr ⟨rfl, rfl⟩

theorem sendData_queue (P : Primitives) (c : Connection) (fragment : Fragment) (now : Instant) :
    (c.sendData P fragment now).tx.sendQueue = c.tx.sendQueue
      ∧ (c.sendData P fragment now).tx.liveCc.isSome = c.tx.liveCc.isSome := by
  rcases sendData_cases P c fragment now with he | ⟨stored, calls, ho⟩
  · rw [he]
    exact ⟨rfl, rfl⟩
  · exact ⟨ho.sendQueue, ho.liveCc⟩

namespace Manifest
variable {sent : List (ℕ × Bytes)} {emitted : List Bytes} {queue : List Fragment} {c : Connection}

/-- An accepted message puts its fragments behind the queue. -/
theorem countMessage (h : Manifest sent emitted queue c) (payload : Bytes) :
    Manifest (sent ++ [(c.maxPayload, payload)]) emitted
      (queue ++ c.fragmentMessage payload c.tx.nextMessage) c.countMessage := by
  obtain ⟨carried, waiting, hsub, hall, hqueue, hcarried⟩ := h.fragments
  have hcounter : (c.countMessage).tx.nextMessage = messageCounter (sent.length + 1) := by
    rw [messageCounter_succ, ← h.nextMessage]
    rfl
  refine ⟨?_, ?_, ⟨carried, waiting ++ (c.fragmentMessage payload c.tx.nextMessage).map fun f => (sent.length, f),
    ?_, ?_, ?_, hcarried⟩, h.outstanding, h.said⟩
  · intro m hm
    rcases List.mem_append.mp hm with hm | hm
    · exact h.sizes m hm
    · obtain rfl := List.mem_singleton.mp hm
      exact maxPayload_bounds c
  · rw [List.length_append, List.length_singleton]
    exact hcounter
  · rw [outgoing_append, ← List.append_assoc, fragmentMessage, h.nextMessage]
    exact hsub.append_right _
  · intro hno
    rw [outgoing_append, ← List.append_assoc, fragmentMessage, h.nextMessage, hall hno]
  · rw [List.map_append, hqueue, List.map_map]
    simp [Function.comp_def]

theorem sendAll (P : Primitives) (now : Instant) (fragments : List Fragment)
    (h : Manifest sent emitted fragments c) (hq : c.tx.sendQueue = []) :
    Manifest sent emitted [] (fragments.foldl (fun c fragment => c.sendData P fragment now) c)
      ∧ (fragments.foldl (fun c fragment => c.sendData P fragment now) c).tx.sendQueue = [] := by
  induction fragments generalizing c with
  | nil => exact ⟨h, hq⟩
  | cons fragment rest ih =>
    rw [List.foldl_cons]
    exact ih (h.sendData P now) ((sendData_queue P c fragment now).1.trans hq)

theorem release (P : Primitives) (period : Duration) (now : Instant)
    (h : Manifest sent emitted c.tx.sendQueue c) (hp : c.tx.liveCc.isSome) :
    Manifest sent emitted (c.release P period now).tx.sendQueue (c.release P period now)
      ∧ (c.release P period now).tx.liveCc.isSome := by
  refine @release_rule (fun c => Manifest sent emitted c.tx.sendQueue c ∧ c.tx.liveCc.isSome = true)
    P period now ?_ ?_ c ⟨h, hp⟩
  · intro c t hc
    exact ⟨hc.1.ofTx { c.tx with nextSend := t } rfl rfl rfl, hc.2⟩
  · intro c fragment rest hc hqueue
    have hnext : Manifest sent emitted (fragment :: rest) (c.setQueue rest) := by
      rw [← hqueue]
      exact hc.1.ofTx { c.tx with sendQueue := rest } rfl rfl rfl
    have hkept := sendData_queue P (c.setQueue rest) fragment now
    refine ⟨?_, hkept.2.trans hc.2⟩
    rw [hkept.1]
    exact hnext.sendData P now

theorem pace (P : Primitives) (now : Instant) (h : Manifest sent emitted c.tx.sendQueue c) (hp : c.Paced) :
    Manifest sent emitted (c.pace P now).tx.sendQueue (c.pace P now) ∧ (c.pace P now).Paced := by
  unfold Connection.pace
  split
  · exact ⟨h, hp⟩
  · next cc hcc =>
    obtain ⟨hreleased, hpaced⟩ := h.release P cc.sndPeriod now (by rw [hcc]; rfl)
    generalize c.release P cc.sndPeriod now = d at hreleased hpaced ⊢
    have hquotes : Quotes d (d.schedulePacing now) :=
      (schedulePacing_linkStep d now).quotes (schedulePacing_sends d now)
    refine ⟨?_, hquotes.keeps_paced (.inl hpaced)⟩
    rw [hquotes.sendQueue]
    exact hreleased.quotes hquotes

theorem submit (P : Primitives) (payload : Bytes) (now : Instant)
    (h : Manifest sent emitted c.tx.sendQueue c) (hp : c.Paced) :
    Manifest (sent ++ [(c.maxPayload, payload)]) emitted (c.submit P payload now).tx.sendQueue
        (c.submit P payload now) ∧ (c.submit P payload now).Paced := by
  have hcount := h.countMessage payload
  unfold Connection.submit
  dsimp only
  split
  · next hnone =>
    have hempty : c.tx.sendQueue = [] := by
      rcases hp with hp | hp
      · rw [Option.isNone_iff_eq_none] at hnone
        simp [hnone] at hp
      · exact hp
    rw [hempty, List.nil_append] at hcount
    obtain ⟨hsent, hqueue⟩ := hcount.sendAll P now (c.fragmentMessage payload c.tx.nextMessage) hempty
    refine ⟨?_, .inr hqueue⟩
    rw [hqueue]
    exact hsent
  · next hsome =>
    apply pace P now
    · exact hcount.ofTx { c.countMessage.tx with
        sendQueue := c.tx.sendQueue ++ c.fragmentMessage payload c.tx.nextMessage } rfl rfl rfl
    · rw [Option.isNone_iff_eq_none] at hsome
      exact .inl (Option.isSome_iff_ne_none.mpr hsome)

end Manifest

/-! ## Whole runs -/

/-- A fresh connection has said nothing but its handshake. -/
theorem connect_routine (P : Primitives) (config : Config) (localSocketId : SocketId) (initialSeq : SeqNumber)
    (now : Instant) (salt : Block 16) (sek : (n : ℕ) → Block n) {d : Bytes}
    (h : (connect P config localSocketId initialSeq now salt sek).Said d) : Encodes Packet.IsRoutine d := by
  have hsay : ∀ c : Connection, c.outputs = [] → c.link.lastHandshake = none → (c.sendInduction now).Said d →
      Encodes Packet.IsRoutine d := by
    intro c ho hl hd
    have hsends : Sends Packet.IsRoutine c (c.sendInduction now) := emitHandshake_sends _ _ _ now
    rcases hsends d hd with hold | hnew
    · simp [Said, ho, hl] at hold
    · exact hnew
  unfold connect at h
  dsimp only at h
  split at h
  · exact hsay _ rfl rfl h
  · split at h
    · simp [Said, panicked, record, newBase] at h
    · exact hsay _ rfl rfl h

theorem accept_routine {P : Primitives} {config : Config} {localSocketId : SocketId} {hs : Handshake}
    {now : Instant} {c : Connection} (ha : accept P config localSocketId hs now = .ok c) {d : Bytes}
    (h : c.Said d) : Encodes Packet.IsRoutine d := by
  obtain ⟨timestamp, henc⟩ := (accept_spec ha).2 d h
  exact ⟨.control ⟨timestamp, hs.srtSocketId, .handshake _⟩, trivial, henc⟩

theorem Fresh.manifest {c : Connection} (h : c.Fresh) (hsaid : ∀ d, c.Said d → Encodes Packet.IsRoutine d) :
    Manifest [] [] [] c := by
  have horiginals : c.originals = [] := by
    apply List.filterMap_eq_nil_iff.mpr
    intro t ht
    rw [h.history t ht]
  refine ⟨by simp, ?_, ⟨[], [], by simp, fun _ => rfl, rfl, ?_⟩, ?_, ?_⟩
  · rw [h.tx]
    rfl
  · rw [horiginals]
    exact .nil
  · rw [Connection.outstanding, h.tx]
    exact List.nil_subset _
  · intro d hd
    rcases hd with hd | hd
    · simp at hd
    · exact (hsaid d hd).mono fun p hp => (hp.quoted _).aired

/-- Draining the outputs puts them on the wire. -/
theorem Manifest.settle {sent : List (ℕ × Bytes)} {emitted : List Bytes} {queue : List Fragment} {c : Connection}
    (h : Manifest sent emitted queue c) :
    Manifest sent (emitted ++ Session.datagrams c.outputs) queue { c with outputs := [] } := by
  refine ⟨h.sizes, h.nextMessage, h.fragments, h.outstanding, fun d hd => h.said d ?_⟩
  rcases hd with hd | hd | hd
  · rcases List.mem_append.mp hd with hd | hd
    · exact .inl hd
    · exact .inr (.inl (Session.mem_datagrams.mp hd))
  · simp at hd
  · exact .inr (.inr hd)

end Connection

namespace Session
open Connection

/-- A session whose outgoing data is accounted for. -/
structure Traced (sent : List (ℕ × Bytes)) (s : Session) : Prop where
  accepted : sent.map Prod.snd = s.accepted
  manifest : s.conn.Manifest sent s.emitted s.conn.tx.sendQueue
  paced : s.conn.Paced

theorem Started.traced {P : Primitives} {s : Session} (h : Started P s) : s.Traced [] := by
  have hstart : ∀ (c : Connection) (now : Instant), c.Fresh → (∀ d, c.Said d → Encodes Packet.IsRoutine d) →
      (start c now).Traced [] := by
    intro c now hfresh hsaid
    have hqueue : c.tx.sendQueue = [] := by
      rw [hfresh.tx]
      rfl
    have hmanifest := (hfresh.manifest hsaid).settle
    refine ⟨rfl, ?_, .inr hqueue⟩
    rw [← hqueue] at hmanifest
    exact hmanifest
  cases h with
  | caller config localSocketId initialSeq now salt sek =>
    exact hstart _ now (connect_fresh P config localSocketId initialSeq now salt sek)
      fun d => connect_routine P config localSocketId initialSeq now salt sek
  | acceptor config localSocketId callerHs now c h => exact hstart c now (accept_fresh h) fun d => accept_routine h

theorem Traced.step {P : Primitives} {s : Session} {sent : List (ℕ × Bytes)} (h : s.Traced sent)
    (input : Call × Instant) : ∃ sent', (s.step P input).Traced sent' := by
  obtain ⟨call, now⟩ := input
  have hperform : ∃ sent', sent'.map Prod.snd = s.accepted ++ s.conn.acceptedBy P call now
      ∧ (s.conn.perform P call now).Manifest sent' s.emitted (s.conn.perform P call now).tx.sendQueue
      ∧ (s.conn.perform P call now).Paced := by
    by_cases hsend : ∃ payload, call = .send payload
    · obtain ⟨payload, rfl⟩ := hsend
      rcases perform_send_accepted P s.conn payload now with ⟨he, ha⟩ | ⟨he, ha⟩
      · rw [he, ha, List.append_nil]
        exact ⟨sent, h.accepted, h.manifest, h.paced⟩
      · rw [he, ha]
        refine ⟨sent ++ [(s.conn.maxPayload, payload)], ?_, h.manifest.submit P payload now h.paced⟩
        rw [List.map_append, h.accepted]
        rfl
    · have hnone : s.conn.acceptedBy P call now = [] := by
        cases call <;> first | rfl | exact absurd ⟨_, rfl⟩ hsend
      rw [hnone, List.append_nil]
      refine ⟨sent, h.accepted, ?_⟩
      by_cases hpace : call = .handleTimer .sndPacing
      · subst hpace
        exact h.manifest.pace P now h.paced
      · have hquotes := perform_quotes P s.conn call now (fun payload he => hsend ⟨payload, he⟩) hpace
        refine ⟨?_, hquotes.keeps_paced h.paced⟩
        rw [hquotes.sendQueue]
        exact h.manifest.quotes hquotes
  obtain ⟨sent', haccepted, hmanifest, hpaced⟩ := hperform
  exact ⟨sent', haccepted, hmanifest.settle, hpaced⟩

theorem run_traced {P : Primitives} {s : Session} (h : Started P s) (inputs : List (Call × Instant)) :
    ∃ sent, (Runs.run (step P) s inputs).Traced sent := by
  refine @Runs.invariant _ _ _ (fun _ _ => True) (fun s : Session => ∃ sent, s.Traced sent) ?_ _ _
    ⟨[], h.traced⟩ (Runs.meets_of_forall (fun _ _ => trivial) _ _)
  rintro s input ⟨sent, hs⟩ -
  exact hs.step input

/-- Parity and data never share a message number. The `i`-th accepted message has the number
`messageNumber i`, which is not zero and not that of the next message; every original packet carries a
fragment of an accepted message under the number of that message, in the order of the fragments, and what
is not sent yet waits in the queue; every data packet on the wire is the parity of a group, with number
zero, or an original, sent for the first time or again. -/
theorem parity_marker_apart {P : Primitives} {s₀ : Session} (h : Started P s₀)
    (inputs : List (Call × Instant)) (s : Session) (hs : s = Runs.run (step P) s₀ inputs) :
    (∀ i, (messageNumber i).value ≠ 0 ∧ messageNumber (i + 1) ≠ messageNumber i)
    ∧ (∀ d ∈ s.emitted, ∀ p, Packet.decode d = .ok (.data p) →
      p.IsParity ∧ p.messageNumber.value = 0
        ∨ p.messageNumber.value ≠ 0
          ∧ ∃ original ∈ s.conn.originals, p = original ∨ p = { original with retransmitted := true })
    ∧ ∃ (sent : List (ℕ × Bytes)) (carried waiting : List (ℕ × Fragment)),
      sent.map Prod.snd = s.accepted
        ∧ (carried ++ waiting).Sublist (outgoing sent)
        ∧ (.panicked ∉ s.conn.trace → carried ++ waiting = outgoing sent)
        ∧ waiting.map Prod.snd = s.conn.tx.sendQueue
        ∧ List.Forall₂ (fun f p => p.position = f.2.position ∧ p.messageNumber = messageNumber f.1)
          carried s.conn.originals := by
  obtain ⟨sent, htraced⟩ := run_traced h inputs
  rw [← hs] at htraced
  obtain ⟨carried, waiting, hsub, hall, hqueue, hcarried⟩ := htraced.manifest.fragments
  have hnumbers : List.Forall₂ (fun (f : ℕ × Fragment) (p : DataPacket) => p.position = f.2.position
      ∧ p.messageNumber = messageNumber f.1) carried s.conn.originals := by
    have hcounters : ∀ f ∈ carried, f.2.message = messageCounter f.1 := fun f hf =>
      outgoing_message (hsub.subset (List.mem_append_left waiting hf))
    refine ((List.forall₂_and_left carried s.conn.originals).mpr ⟨hcounters, hcarried⟩).imp ?_
    rintro f p ⟨hcounter, hp⟩
    have hnumber := hp.messageNumber
    rw [hcounter] at hnumber
    exact ⟨hp.position, hnumber⟩
  have hnonzero : ∀ original ∈ s.conn.originals, original.messageNumber.value ≠ 0 := by
    have hflip : List.Forall₂ (fun (p : DataPacket) (_ : ℕ × Fragment) => p.messageNumber.value ≠ 0 ∧ True)
        s.conn.originals carried := by
      refine hnumbers.flip.imp ?_
      rintro p f ⟨-, hnumber⟩
      rw [hnumber]
      exact ⟨messageNumber_ne_zero f.1, trivial⟩
    exact ((List.forall₂_and_left _ _).mp hflip).1
  refine ⟨fun i => ⟨messageNumber_ne_zero i, messageNumber_succ_ne i⟩, ?_, sent, carried, waiting,
    htraced.accepted, hsub, fun hno => hall (.inl hno), hqueue, hnumbers⟩
  intro d hd p hdec
  have haired := (htraced.manifest.said d (.inl hd)).data hdec
  rcases haired with ⟨-, hparity⟩ | ⟨original, hm, hp⟩
  · refine .inl ⟨hparity, ?_⟩
    rw [hparity.2.2.2.1]
    rfl
  · refine .inr ⟨?_, original, hm, hp⟩
    rcases hp with rfl | rfl
    · exact hnonzero p hm
    · exact hnonzero original hm

/-- An acceptor that protects pairs of packets. -/
def pairedAcceptor : Session := acceptorWith { Config.default with fec := some ⟨2⟩ }

/-- Two messages: each goes out under its own number, and the parity of the pair under zero. -/
theorem parity_marker_apart_pair :
    ((Runs.run (step Primitives.absent) pairedAcceptor [(.send [1], 0), (.send [2], 1)]).emitted.filterMap
      fun d => match Packet.decode d with | .ok (.data p) => some p.messageNumber.value | _ => none) = [1, 2, 0]
    ∧ ∀ d ∈ (Runs.run (step Primitives.absent) pairedAcceptor [(.send [1], 0), (.send [2], 1)]).emitted,
      ∀ p, Packet.decode d = .ok (.data p) → p.IsParity ∨ p.messageNumber.value ≠ 0 := by
  have hstarted : Started Primitives.absent pairedAcceptor := accepting_started (by decide +kernel)
  refine ⟨by decide +kernel, ?_⟩
  intro d hd p hdec
  have h := (parity_marker_apart hstarted [(.send [1], 0), (.send [2], 1)] _ rfl).2.1 d hd p hdec
  exact h.imp And.left And.left

end Session

end Srtrust
