import Srtrust.Session.Teardown

/-! # Outgoing data over whole runs

A data packet enters the send buffer in one place and leaves it at the front. `Dispatch` collects
what a property of the buffered packets and of the keys has to survive: work that originates
nothing, one packet originated, and the four steps of the key exchange. The rules below carry such
a property through every call and along every run. -/
namespace Srtrust
open BigEndian
set_option autoImplicit false

/-- History of outgoing data. -/
def Trace.IsSent : Trace → Prop
  | .originated _ => True
  | .encrypted _ => True
  | _ => False

theorem Trace.IsRx.not_isSent {t : Trace} (h : t.IsRx) : ¬ t.IsSent := by
  cases t <;> simp_all [Trace.IsRx, Trace.IsSent]

namespace Connection

/-- Work that originates nothing and leaves the keys alone; packets may leave the send buffer. -/
structure Settles (c c' : Connection) : Prop where
  config : c'.config = c.config
  keys : c'.keys = c.keys
  nextSendSeq : c'.tx.nextSendSeq = c.tx.nextSendSeq
  fec : c'.tx.fecSend = c.tx.fecSend
  outstanding : c'.outstanding <:+ c.outstanding
  trace : ∃ ts, c'.trace = c.trace ++ ts ∧ ∀ t ∈ ts, ¬ t.IsSent

namespace Settles

theorem refl (c : Connection) : Settles c c :=
  ⟨rfl, rfl, rfl, rfl, List.suffix_rfl, [], by simp, by simp⟩

theorem trans {a b c : Connection} (h : Settles a b) (h' : Settles b c) : Settles a c := by
  obtain ⟨ts, ht, hts⟩ := h.trace
  obtain ⟨ts', ht', hts'⟩ := h'.trace
  refine ⟨h'.config.trans h.config, h'.keys.trans h.keys, h'.nextSendSeq.trans h.nextSendSeq,
    h'.fec.trans h.fec, h'.outstanding.trans h.outstanding, ts ++ ts', by rw [ht', ht, List.append_assoc], ?_⟩
  intro t hm
  exact (List.mem_append.mp hm).elim (hts t) (hts' t)

/-- Sender and history untouched. -/
theorem same {c c' : Connection} (hc : c'.config = c.config) (hk : c'.keys = c.keys) (htx : c'.tx = c.tx)
    (ht : c'.trace = c.trace) : Settles c c' :=
  ⟨hc, hk, by rw [htx], by rw [htx], by rw [Connection.outstanding, htx]; exact List.suffix_rfl, [], by simp [ht],
    by simp⟩

/-- A change of the sender that leaves the buffer, the next sequence number and the FEC encoder alone. -/
theorem ofTx (c : Connection) (tx : Sender) (hb : tx.sendBuffer = c.tx.sendBuffer)
    (hn : tx.nextSendSeq = c.tx.nextSendSeq) (hf : tx.fecSend = c.tx.fecSend) : Settles c { c with tx := tx } := by
  refine ⟨rfl, rfl, hn, hf, ?_, [], by simp, by simp⟩
  rw [Connection.outstanding, hb]
  exact List.suffix_rfl

theorem output (c : Connection) (o : Output) : Settles c (c.output o) := .same rfl rfl rfl rfl

theorem panicked (c : Connection) : Settles c c.panicked :=
  ⟨rfl, rfl, rfl, rfl, List.suffix_rfl, [.panicked], rfl, by simp [Trace.IsSent]⟩

end Settles

theorem RxStep.settles {c c' : Connection} (h : RxStep c c') : Settles c c' := by
  obtain ⟨ts, ht, hts⟩ := h.grows.trace
  refine ⟨config_of_ident h.ident, h.keys, by rw [h.tx], by rw [h.tx], ?_, ts, ht, fun t hm => (hts t hm).not_isSent⟩
  rw [outstanding, h.tx]
  exact List.suffix_rfl

theorem Feedback.settles {ids : List TimerId} {c c' : Connection} (h : Feedback ids c c') :
    Settles c c' := by
  obtain ⟨ts, ht, hts⟩ := h.grows.trace
  refine ⟨config_of_ident h.ident, h.keys, congrArg Prod.fst h.origin,
    congrArg (fun origin => origin.2.2.2.2.1) h.origin, h.outstanding, ts, ht, ?_⟩
  intro t hm
  rw [hts t hm]
  exact id

theorem LinkStep.settles {c c' : Connection} (h : LinkStep c c') : Settles c c' := by
  obtain ⟨ts, ht, hts⟩ := h.trace
  refine ⟨config_of_ident h.ident, h.keys, by rw [h.tx], by rw [h.tx], ?_, ts, ht, ?_⟩
  · rw [outstanding, h.tx]
    exact List.suffix_rfl
  · intro t hm
    rw [hts t hm]
    exact id

/-! ## Handlers that originate nothing -/

theorem onShutdown_settles (c : Connection) : Settles c c.onShutdown :=
  (flushLoop_rxStep _ c).settles.trans
    (((fail_linkStep _).trans (clearArqTimers_linkStep _)).trans (.event _ _ id)).settles

theorem onAck_settles (c : Connection) (ack : Ack) (now : Instant) : Settles c (c.onAck ack now) := by
  rw [onAck_eq]
  exact (settleAck_feedback c ack now).settles.trans
    ((finishCloseIfDrained_linkStep _ now).trans (answerAck_linkStep _ ack now)).settles

theorem onAckTimer_settles (c : Connection) (now : Instant) : Settles c (c.onAckTimer now) := by
  unfold onAckTimer
  split
  · exact .refl c
  · refine (Settles.output c (.setTimer .ack ackInterval)).trans ?_
    dsimp only
    split
    · exact .refl _
    · exact (sendFullAck_rxStep _ now).settles

theorem onNakTimer_settles (c : Connection) (now : Instant) : Settles c (c.onNakTimer now) := by
  unfold onNakTimer
  split
  · exact .refl c
  · refine (Settles.output c (.setTimer .nak c.nakInterval)).trans ?_
    dsimp only
    split
    · exact .refl _
    · split
      · exact .refl _
      · exact (sendNak_rxStep _ _ now).settles

theorem onHandshakePacket_settles (c : Connection) (packet : Packet) (now : Instant)
    (hs : c.link.state = .induction ∨ c.link.state = .conclusion) :
    Settles c (c.onHandshakePacket packet now) := by
  rcases onHandshakePacket_linkStep c packet now hs with hlink | ⟨negotiated, -, he⟩
  · exact hlink.settles
  · have henter : ∀ c : Connection, Settles c (c.enterConnected negotiated now) := fun _ =>
      .same rfl rfl rfl rfl
    rw [he]
    exact (Settles.output c _).trans (henter _)

/-! ## The rules -/

/-- The Key Material request a call hands to `on_km_req`. -/
def announcedBy (c : Connection) : Call → Option Bytes
  | .feedRecvBuf datagram =>
    match c.link.state, Packet.decode datagram with
    | .connected, .ok (.control { body := .raw .userDefined subtype _ cif, .. }) =>
      if subtype = extKmreq then some cif else none
    | _, _ => none
  | _ => none

/-- What is assumed of the keys a call brings: one from the embedder, or one from the peer. -/
def KeyOk (own peer : Connection → Bytes → Prop) (c : Connection) (call : Call) : Prop :=
  (∀ sek, call = .provideRekey sek → own c sek) ∧ ∀ cif, c.announcedBy call = some cif → peer c cif

/-- What a property of outgoing data has to survive. -/
structure Dispatch (P : Primitives) (own peer : Connection → Bytes → Prop) (Q : Connection → Prop) :
    Prop where
  settles : ∀ c c', Settles c c' → Q c → Q c'
  originates : ∀ c c' fragment now stored calls, Originates P fragment now stored calls c c' → Q c → Q c'
  provideRekey : ∀ c sek now, own c sek → Q c → Q (c.provideRekey P sek now)
  kmReq : ∀ c cif now, peer c cif → Q c → Q (c.onKmReq P cif now)
  kmRsp : ∀ c cif, Q c → Q (c.onKmRsp cif)
  resend : ∀ c now, Q c → Q (c.resendPendingKm now)
  /-- The assumption on the peer's keys does not depend on the clock. -/
  peerFrame : ∀ c cif now, peer c cif → peer { c with lastRecvAny := now } cif

namespace Dispatch

/-- A property that no step of the key exchange touches. -/
theorem ofKeyStep {P : Primitives} {Q : Connection → Prop} (hsettles : ∀ c c', Settles c c' → Q c → Q c')
    (horiginates : ∀ c c' fragment now stored calls, Originates P fragment now stored calls c c' → Q c → Q c')
    (hkeys : ∀ c c', KeyStep c c' → Q c → Q c') : Dispatch P (fun _ _ => True) (fun _ _ => True) Q where
  settles := hsettles
  originates := horiginates
  provideRekey c sek now _ hc := hkeys _ _ (provideRekey_keyStep P c sek now) hc
  kmReq c cif now _ hc := hkeys _ _ (onKmReq_keyStep P c cif now) hc
  kmRsp c cif hc := hkeys _ _ (onKmRsp_keyStep c cif) hc
  resend c now hc := hkeys _ _ (resendPendingKm_keyStep c now) hc
  peerFrame _ _ _ _ := trivial

variable {P : Primitives} {own peer : Connection → Bytes → Prop} {Q : Connection → Prop}
  (h : Dispatch P own peer Q) {c : Connection}
include h

theorem sendData (fragment : Fragment) (now : Instant) (hq : Q c) : Q (c.sendData P fragment now) := by
  rcases sendData_cases P c fragment now with he | ⟨stored, calls, ho⟩
  · rw [he]
    exact h.settles _ _ (.panicked c) hq
  · exact h.originates _ _ _ _ _ _ ho hq

theorem sendAll (fragments : List Fragment) (now : Instant) (hq : Q c) :
    Q (fragments.foldl (fun c fragment => c.sendData P fragment now) c) := by
  induction fragments generalizing c with
  | nil => exact hq
  | cons fragment rest ih => exact ih (h.sendData fragment now hq)

theorem pace (now : Instant) (hq : Q c) : Q (c.pace P now) := by
  have hnext : ∀ (c : Connection) t, Q c → Q (c.setNextSend t) := fun c t =>
    h.settles c _ (.ofTx c _ rfl rfl rfl)
  have hqueue : ∀ (c : Connection) rest, Q c → Q (c.setQueue rest) := fun c rest =>
    h.settles c _ (.ofTx c _ rfl rfl rfl)
  unfold Connection.pace
  split
  · exact hq
  · exact h.settles _ _ (schedulePacing_linkStep _ now).settles
      (release_rule P _ now hnext (fun c fragment rest hq _ => h.sendData fragment now (hqueue c rest hq)) hq)

theorem send (payload : Bytes) (now : Instant) (hq : Q c) : Q (c.perform P (.send payload) now) := by
  rcases perform_send_cases P c payload now with he | ⟨-, -, he⟩
  · rw [he]
    exact hq
  · have hcount : Q c.countMessage := h.settles c _ (.ofTx c _ rfl rfl rfl) hq
    have henqueue : ∀ fragments, Q (c.countMessage.enqueue fragments) := fun fragments =>
      h.settles c.countMessage _ (.ofTx _ _ rfl rfl rfl) hcount
    rw [he]
    unfold submit
    dsimp only
    split
    · exact h.sendAll _ now hcount
    · exact h.pace now (henqueue _)

theorem onKeepaliveTimer (now : Instant) (hq : Q c) : Q (c.onKeepaliveTimer now) := by
  rcases onKeepaliveTimer_eq c now with he | hlink
  · rw [he]
    exact hq
  · exact h.settles _ _ hlink.settles (h.resend c now hq)

theorem handleTimer (id : TimerId) (now : Instant) (hq : Q c) : Q (c.handleTimer P id now) := by
  cases id with
  | handshake => exact h.settles _ _ (onHandshakeTimer_linkStep c now).settles hq
  | ack => exact h.settles _ _ (onAckTimer_settles c now) hq
  | nak => exact h.settles _ _ (onNakTimer_settles c now) hq
  | exp => exact h.settles _ _ (onExpTimer_feedback c now).settles hq
  | tsbpd => exact h.settles _ _ (deliverTsbpd_rxStep c now).settles hq
  | sndPacing => exact h.pace now hq
  | linger => exact h.settles _ _ (onLingerTimer_linkStep c now).settles hq
  | keepalive => exact h.onKeepaliveTimer now hq
  | peerIdle => exact h.settles _ _ (onPeerIdleTimer_linkStep c now).settles hq

theorem onControl (ctrl : ControlPacket) (now : Instant) (hq : Q c)
    (hpeer : ∀ info cif, ctrl.body = .raw .userDefined extKmreq info cif → peer c cif) :
    Q (c.onConnectedPacket P (.control ctrl) now) := by
  have settles {c'} (hc : Settles c c') : Q c' := h.settles c c' hc hq
  obtain ⟨timestamp, destSocketId, body⟩ := ctrl
  cases body with
  | ack a => exact settles (onAck_settles c a now)
  | ackAck number => exact settles (onAckack_rxStep c number now).settles
  | nak loss => exact settles (onNak_feedback c loss now).settles
  | shutdown => exact settles (onShutdown_settles c)
  | dropReq message first last => exact settles (onDropreq_rxStep c first last now).settles
  | keepalive => exact hq
  | congestionWarning => exact hq
  | peerError _ => exact hq
  | raw ctype subtype info cif =>
    cases ctype with
    | userDefined =>
      simp only [onConnectedPacket]
      split
      · next hsub => exact h.kmReq c cif now (hpeer info cif (by rw [hsub])) hq
      · split
        · exact h.kmRsp c cif hq
        · exact hq
    | _ => exact hq
  | handshake hs =>
    simp only [onConnectedPacket]
    split
    · split
      · exact settles (.output c _)
      · exact hq
    · exact hq

theorem feedRecvBuf (datagram : Bytes) (now : Instant) (hq : Q c)
    (hpeer : ∀ cif, c.announcedBy (.feedRecvBuf datagram) = some cif → peer c cif) :
    Q (c.feedRecvBuf P datagram now) := by
  have hrecv : Settles c { c with lastRecvAny := now } := .same rfl rfl rfl rfl
  unfold Connection.feedRecvBuf
  unfold announcedBy at hpeer
  cases hd : Packet.decode datagram with
  | error _ => exact hq
  | ok packet =>
    cases hs : c.link.state with
    | induction => exact h.settles _ _ (onHandshakePacket_settles c packet now (.inl hs)) hq
    | conclusion => exact h.settles _ _ (onHandshakePacket_settles c packet now (.inr hs)) hq
    | failed => exact hq
    | connected =>
      cases packet with
      | data data => exact h.settles _ _ (hrecv.trans (onData_rxStep P _ data now).settles) hq
      | control ctrl =>
        refine h.onControl ctrl now (h.settles _ _ hrecv hq) fun info cif hbody => ?_
        obtain ⟨timestamp, destSocketId, body⟩ := ctrl
        dsimp only at hbody
        subst hbody
        refine h.peerFrame c cif now (hpeer cif ?_)
        simp only [hd, hs, if_pos]

/-- Every call keeps what survives dispatch. -/
theorem perform (call : Call) (now : Instant) (hq : Q c) (hok : c.KeyOk own peer call) :
    Q (c.perform P call now) := by
  cases call with
  | feedRecvBuf datagram => exact h.feedRecvBuf datagram now hq hok.2
  | handleTimer id => exact h.handleTimer id now hq
  | send payload => exact h.send payload now hq
  | close => exact h.settles _ _ (close_linkStep c now).settles hq
  | provideRekey sek => exact h.provideRekey c sek now (hok.1 sek rfl) hq
  | pollEvent => exact h.settles c _ (.same rfl rfl rfl rfl) hq

end Dispatch

end Connection

namespace Session

/-- A property that survives dispatch holds along every run whose keys are as assumed. -/
theorem run_dispatch {P : Primitives} {own peer : Connection → Bytes → Prop} {Q : Connection → Prop}
    (h : Connection.Dispatch P own peer Q) {s : Session} {inputs : List (Call × Instant)} (h0 : Q s.conn)
    (hm : Runs.Meets (step P) (fun s input => s.conn.KeyOk own peer input.1) s inputs) :
    Q (Runs.run (step P) s inputs).conn := by
  refine @Runs.invariant _ _ _ _ (fun s : Session => Q s.conn) ?_ _ _ h0 hm
  intro s input hq hok
  have hperform := h.perform input.1 input.2 hq hok
  exact h.settles (s.conn.perform P input.1 input.2) _ (.same rfl rfl rfl rfl) hperform

theorem Started.outstanding {P : Primitives} {s : Session} (h : Started P s) :
    s.conn.outstanding = [] := by
  obtain ⟨c, now, hc, rfl⟩ := h.fresh
  change c.tx.sendBuffer.content = []
  rw [hc.tx]
  rfl

end Session

/-! ## Contiguity -/

namespace Connection

/-- The send buffer is a run of sequence numbers that ends just before the next one. -/
structure InStep (c : Connection) : Prop where
  contiguous : c.tx.sendBuffer.Contiguous
  last : ∀ packet ∈ c.outstanding.getLast?, packet.seq.next = c.tx.nextSendSeq

theorem InStep.settles {c c' : Connection} (h : Settles c c') (hc : c.InStep) : c'.InStep := by
  obtain ⟨front, hfront⟩ := h.outstanding
  have hchain := hc.contiguous
  have hlast := hc.last
  rw [SendBuffer.Contiguous] at hchain
  change List.IsChain _ c.outstanding at hchain
  rw [← hfront] at hchain hlast
  refine ⟨hchain.right_of_append, fun packet hp => ?_⟩
  rw [h.nextSendSeq]
  exact hlast packet (List.mem_getLast?_append_of_mem_getLast? hp)

theorem InStep.originates {P : Primitives} {fragment : Fragment} {now : Instant} {stored : DataPacket}
    {calls : List Trace} {c c' : Connection} (h : Originates P fragment now stored calls c c')
    (hc : c.InStep) : c'.InStep := by
  have hnext : c'.tx.nextSendSeq = c.tx.nextSendSeq.next := by
    rw [h.tx]
    rfl
  refine ⟨?_, ?_⟩
  · change List.IsChain _ c'.outstanding
    rw [h.outstanding]
    refine List.IsChain.append hc.contiguous (by simp) fun packet hp first hfirst => ?_
    obtain rfl : stored = first := by simpa using hfirst
    rw [hc.last packet hp, h.seq]
  · intro packet hp
    rw [h.outstanding, List.getLast?_concat] at hp
    obtain rfl := Option.some.inj hp
    rw [h.seq, hnext]

theorem inStep_dispatch (P : Primitives) :
    Dispatch P (fun _ _ => True) (fun _ _ => True) InStep := by
  refine .ofKeyStep (fun _ _ h hc => hc.settles h) (fun _ _ _ _ _ _ h hc => hc.originates h) ?_
  intro c c' h hc
  exact ⟨by rw [h.tx]; exact hc.contiguous, by rw [outstanding, h.tx]; exact hc.last⟩

end Connection

namespace Session

/-- In every state of a run the send buffer is a run of sequence numbers that ends just before the
next one to be sent; and in such a buffer lookup is exact and an ACK point drops what is before
it. -/
theorem sendBuffer_contiguous (P : Primitives) (s : Session) (hs : Started P s)
    (inputs : List (Call × Instant)) :
    ((Runs.run (step P) s inputs).conn.tx.sendBuffer.Contiguous ∧
      ∀ last, (Runs.run (step P) s inputs).conn.tx.sendBuffer.lastSeq = some last →
        last = (Runs.run (step P) s inputs).conn.tx.nextSendSeq.prev ∧
          (Runs.run (step P) s inputs).conn.tx.nextSendSeq = last.next) ∧
    ∀ b : SendBuffer, b.Contiguous → b.len ≤ 2 ^ 30 → ∀ front, b.firstSeq = some front →
      (∀ seq, b.get seq = (b.packets.find? (·.packet.seq = seq)).map (·.packet) ∧
        b.lastRetransmitted seq = (b.packets.find? (·.packet.seq = seq)).bind (·.lastRetransmit)) ∧
      (∀ d ≤ 2 ^ 30, (b.ack (front.add d)).packets = b.packets.drop (min d b.len)) ∧
      ∀ d point, 1 ≤ d → d < 2 ^ 30 → point.add d = front → b.ack point = b := by
  have hstart : s.conn.InStep := by
    have hnil := hs.outstanding
    refine ⟨?_, by simp [hnil]⟩
    change List.IsChain _ s.conn.outstanding
    rw [hnil]
    exact .nil
  have hrun := run_dispatch (Connection.inStep_dispatch P) hstart
    (Runs.meets_of_forall (fun _ _ => ⟨fun _ _ => trivial, fun _ _ => trivial⟩) s inputs)
  generalize (Runs.run (step P) s inputs).conn = c at hrun ⊢
  refine ⟨⟨hrun.contiguous, fun last hlast => ?_⟩, fun b hb hlen front hfront => ⟨fun seq => ?_, ?_, ?_⟩⟩
  · obtain ⟨sent, hsent, rfl⟩ := Option.map_eq_some_iff.mp hlast
    have hnext : sent.packet.seq.next = c.tx.nextSendSeq := by
      refine hrun.last sent.packet ?_
      rw [Connection.outstanding, SendBuffer.content, List.getLast?_map, hsent]
      rfl
    rw [← hnext, SeqNumber.prev_next]
    exact ⟨rfl, rfl⟩
  · exact ⟨hb.get_eq hlen seq, hb.lastRetransmitted_eq hlen seq⟩
  · intro d hd
    rw [hb.ack_ahead hfront hd]
    rcases Nat.le_total d b.len with hle | hle
    · rw [Nat.min_eq_left hle]
    · rw [Nat.min_eq_right hle, List.drop_of_length_le hle, SendBuffer.len, List.drop_length]
  · intro d point _ hd hpoint
    rw [← hpoint] at hfront
    exact SendBuffer.ack_behind hfront hd

theorem sendBuffer_contiguous_plain :
    ((Runs.run (step Primitives.absent) plainAcceptor
        [(.send [1], 0), (.send [2], 0)]).conn.tx.sendBuffer.Contiguous ∧
      ∀ last, (Runs.run (step Primitives.absent) plainAcceptor
          [(.send [1], 0), (.send [2], 0)]).conn.tx.sendBuffer.lastSeq = some last →
        last = (Runs.run (step Primitives.absent) plainAcceptor
            [(.send [1], 0), (.send [2], 0)]).conn.tx.nextSendSeq.prev ∧
          (Runs.run (step Primitives.absent) plainAcceptor
            [(.send [1], 0), (.send [2], 0)]).conn.tx.nextSendSeq = last.next) ∧
    ∀ b : SendBuffer, b.Contiguous → b.len ≤ 2 ^ 30 → ∀ front, b.firstSeq = some front →
      (∀ seq, b.get seq = (b.packets.find? (·.packet.seq = seq)).map (·.packet) ∧
        b.lastRetransmitted seq = (b.packets.find? (·.packet.seq = seq)).bind (·.lastRetransmit)) ∧
      (∀ d ≤ 2 ^ 30, (b.ack (front.add d)).packets = b.packets.drop (min d b.len)) ∧
      ∀ d point, 1 ≤ d → d < 2 ^ 30 → point.add d = front → b.ack point = b :=
  sendBuffer_contiguous Primitives.absent plainAcceptor plainAcceptor_started _

end Session

end Srtrust
