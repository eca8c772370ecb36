import Srtrust.Session.Alarms

/-! # A graceful close over whole runs

A closing connection waits while something is queued or unacknowledged. Acknowledgements and pacing
slots complete the close when they take the last packet away; a too-late drop reached from a loss
report or from the retransmission timer does not. -/
namespace Srtrust
open BigEndian
set_option autoImplicit false

namespace Connection

/-- A closing connection still has something to wait for. -/
def Undrained (c : Connection) : Prop :=
  c.link.closing = true → c.tx.sendBuffer.isEmpty = false ∨ c.tx.sendQueue ≠ []

/-- Whether a call sheds late packets without looking at a pending close: the retransmission timer
and a loss report do. -/
def shedsBlindly : Call → Bool
  | .handleTimer .exp => true
  | .feedRecvBuf datagram =>
    match Packet.decode datagram with
    | .ok (.control { body := .nak _, .. }) => true
    | _ => false
  | _ => false

/-- The call sheds the last packets a closing connection waits for. -/
def ShedsLast (c : Connection) (call : Call) (now : Instant) : Prop :=
  c.link.closing = true ∧ c.tx.sendQueue = [] ∧ shedsBlindly call = true ∧
    c.tx.sendBuffer.packets.all (c.tooLate now) = true

instance (c : Connection) (call : Call) (now : Instant) : Decidable (c.ShedsLast call now) :=
  inferInstanceAs (Decidable (_ ∧ _))

section Undrained

variable {c c' : Connection} {now : Instant}

theorem Undrained.congr (hc : c.Undrained) (htx : c'.tx = c.tx) (hlink : c'.link = c.link) :
    c'.Undrained := by
  rw [Undrained, htx, hlink]
  exact hc

/-- Shedding leaves a packet unless all are too late. -/
theorem dropTooLate_undrained
    (hlast : c.link.closing = true → c.tx.sendQueue = [] → c.tx.sendBuffer.packets.all (c.tooLate now) = false) :
    (c.dropTooLate now).Undrained := by
  have h := dropTooLate_feedback c now
  have hqueue : (c.dropTooLate now).tx.sendQueue = c.tx.sendQueue := congrArg (·.2.2.1) h.origin
  intro hclosing
  rw [h.link] at hclosing
  rw [hqueue]
  by_cases hq : c.tx.sendQueue = []
  · refine .inl ?_
    have hsome := hlast hclosing hq
    rw [SendBuffer.isEmpty, dropTooLate_packets, List.isEmpty_eq_false_iff]
    intro hnil
    have hsplit := List.takeWhile_append_dropWhile (p := c.tooLate now) (l := c.tx.sendBuffer.packets)
    rw [hnil, List.append_nil] at hsplit
    rw [← hsplit, List.all_takeWhile] at hsome
    exact Bool.noConfusion hsome
  · exact .inr hq

/-- Retransmission takes nothing out of the buffer. -/
theorem Undrained.resent (hc : c.Undrained) {ids : List TimerId} (h : Feedback ids c c')
    (hb : c'.outstanding = c.outstanding) : c'.Undrained := by
  have hqueue : c'.tx.sendQueue = c.tx.sendQueue := congrArg (·.2.2.1) h.origin
  intro hclosing
  rw [h.link] at hclosing
  rw [hqueue]
  refine (hc hclosing).imp_left fun hne => ?_
  rw [← awaits_exp_iff] at hne ⊢
  exact fun hnil => hne (hb.symm.trans hnil)

theorem onNak_undrained (loss : List LossRange)
    (hlast : c.link.closing = true → c.tx.sendQueue = [] → c.tx.sendBuffer.packets.all (c.tooLate now) = false) :
    (c.onNak loss now).Undrained := by
  have hdrop : (c.countNak.dropTooLate now).Undrained := dropTooLate_undrained hlast
  unfold onNak
  generalize c.countNak.dropTooLate now = d at hdrop
  induction loss generalizing d with
  | nil => exact hdrop
  | cons range loss ih =>
    exact ih _ (hdrop.resent (retransmitRange_feedback d _ _ now) (retransmitRange_outstanding d _ _ now))

theorem onExpTimer_undrained (hc : c.Undrained)
    (hlast : c.link.closing = true → c.tx.sendQueue = [] → c.tx.sendBuffer.packets.all (c.tooLate now) = false) :
    (c.onExpTimer now).Undrained := by
  have hdrop : (c.dropTooLate now).Undrained := dropTooLate_undrained hlast
  unfold onExpTimer
  split
  · exact hc
  · dsimp only
    generalize c.dropTooLate now = d at hdrop
    split
    · exact hdrop
    · have hagain : (d.retransmitAll now).Undrained := by
        unfold retransmitAll
        split
        · exact hdrop.resent (retransmitRange_feedback d _ _ now) (retransmitRange_outstanding d _ _ now)
        · exact hdrop
      exact hagain

/-- A close check that leaves the connection up leaves it something to wait for. -/
theorem finishCloseIfDrained_undrained (hs : (c.finishCloseIfDrained now).link.state = .connected) :
    (c.finishCloseIfDrained now).Undrained := by
  intro hclosing
  rw [finishCloseIfDrained_connected hs] at hclosing ⊢
  unfold finishCloseIfDrained at hs
  split at hs
  · rw [finalizeShutdown_link] at hs
    exact absurd hs (by simp)
  · next hbusy =>
    by_contra hdone
    push Not at hdone
    exact hbusy ⟨hclosing, by simpa using hdone.1, by simpa using hdone.2⟩

theorem onAck_undrained (ack : Ack) (hs : (c.onAck ack now).link.state = .connected) :
    (c.onAck ack now).Undrained := by
  rw [onAck_eq] at hs ⊢
  have hanswer := answerAck_keyStep ((c.settleAck ack now).finishCloseIfDrained now) ack now
  rw [hanswer.link] at hs
  exact (finishCloseIfDrained_undrained hs).congr hanswer.tx hanswer.link

theorem schedulePacing_undrained (hs : (c.schedulePacing now).link.state = .connected) :
    (c.schedulePacing now).Undrained := by
  unfold schedulePacing at hs ⊢
  split at hs
  · next hempty =>
    rw [if_pos hempty]
    exact finishCloseIfDrained_undrained hs
  · next hfull =>
    rw [if_neg hfull]
    exact fun _ => .inr fun hnil => hfull (List.isEmpty_iff.mpr hnil)

theorem pace_undrained (P : Primitives) (hc : c.Undrained) (hs : (c.pace P now).link.state = .connected) :
    (c.pace P now).Undrained := by
  unfold pace at hs ⊢
  split at hs
  · exact hc
  · exact schedulePacing_undrained hs

/-- A message is accepted only while the connection is not closing. -/
theorem send_undrained (P : Primitives) (payload : Bytes) (hc : c.Undrained)
    (hs : (c.perform P (.send payload) now).link.state = .connected) :
    (c.perform P (.send payload) now).Undrained := by
  rcases perform_send_cases P c payload now with h | ⟨-, hopen, h⟩
  · rw [h]
    exact hc
  · rw [h] at hs ⊢
    rcases submit_cases P c payload now with hstep | ⟨d, hstep, hsubmit⟩
    · intro hclosing
      rw [hstep.link, hopen] at hclosing
      exact absurd hclosing (by simp)
    · rw [hsubmit] at hs ⊢
      exact schedulePacing_undrained hs

theorem close_undrained (hc : c.Undrained) (hs : (c.close now).link.state = .connected) :
    (c.close now).Undrained := by
  unfold close at hs ⊢
  split at hs
  · next h =>
    rw [if_pos h]
    exact hc
  · next h =>
    rw [if_neg h]
    split at hs
    · exact absurd hs (by simp [fail, event])
    · next hconn =>
      rw [if_neg hconn]
      split at hs
      · rw [finalizeShutdown_link] at hs
        exact absurd hs (by simp)
      · next hbusy =>
        rw [if_neg hbusy]
        intro _
        by_contra hdone
        push Not at hdone
        have hempty : c.tx.sendBuffer.isEmpty ≠ false := hdone.1
        have hqueue : c.tx.sendQueue = [] := hdone.2
        exact hbusy ⟨by simpa using hempty, by simp [hqueue]⟩

theorem onConnectedPacket_undrained (P : Primitives) (datagram : Bytes) {packet : Packet}
    (hdecode : Packet.decode datagram = .ok packet) (hc : c.Undrained)
    (hlast : ¬ c.ShedsLast (.feedRecvBuf datagram) now)
    (hs : (c.onConnectedPacket P packet now).link.state = .connected) :
    (c.onConnectedPacket P packet now).Undrained := by
  cases packet with
  | data data =>
    have h := onData_rxStep P c data now
    exact hc.congr h.tx h.link
  | control ctrl =>
    revert hs
    refine onControl_cases P c ctrl now (R := fun d => d.link.state = .connected → d.Undrained)
      (fun ack _ hs => onAck_undrained ack hs)
      (fun number _ => ?_) (fun loss hbody _ => onNak_undrained loss fun hclosing hqueue => ?_) (fun hs => ?_)
      (fun _ first last _ _ => ?_) (fun cif _ => ?_) (fun cif _ => ?_) (fun bytes _ _ => hc.congr rfl rfl)
      (fun _ => hc)
    · have h := onAckack_rxStep c number now
      exact hc.congr h.tx h.link
    · rw [Bool.eq_false_iff]
      refine fun hall => hlast ⟨hclosing, hqueue, ?_, hall⟩
      obtain ⟨timestamp, destSocketId, body⟩ := ctrl
      obtain rfl : body = .nak loss := hbody
      rw [shedsBlindly, hdecode]
    · exact absurd hs (by simp [onShutdown, fail, clearArqTimers, event])
    · have h := onDropreq_rxStep c first last now
      exact hc.congr h.tx h.link
    · have h := onKmReq_keyStep P c cif now
      exact hc.congr h.tx h.link
    · have h := onKmRsp_keyStep c cif
      exact hc.congr h.tx h.link

theorem onAckTimer_tx (c : Connection) (now : Instant) : (c.onAckTimer now).tx = c.tx := by
  unfold onAckTimer
  split
  · rfl
  · dsimp only
    split
    · rfl
    · exact (sendFullAck_rxStep _ now).tx

theorem onNakTimer_tx (c : Connection) (now : Instant) : (c.onNakTimer now).tx = c.tx := by
  unfold onNakTimer
  split
  · rfl
  · dsimp only
    split
    · rfl
    · split
      · rfl
      · exact (sendNak_rxStep _ _ now).tx

theorem onKeepaliveTimer_tx (c : Connection) (now : Instant) : (c.onKeepaliveTimer now).tx = c.tx := by
  rcases onKeepaliveTimer_eq c now with h | h
  · rw [h]
  · exact h.tx.trans (resendPendingKm_keyStep c now).tx

/-- A call that does not shed the last packets leaves a closing connection that is up something to wait
for. -/
theorem perform_undrained (P : Primitives) (call : Call) (hc : c.Undrained) (hup : c.link.state = .connected)
    (hlast : ¬ c.ShedsLast call now) (hs : (c.perform P call now).link.state = .connected) :
    (c.perform P call now).Undrained := by
  cases call with
  | feedRecvBuf datagram =>
    simp only [perform, feedRecvBuf] at hs ⊢
    split at hs
    · exact hc
    · next packet hdecode =>
      rw [hup] at hs ⊢
      dsimp only at hs ⊢
      exact onConnectedPacket_undrained P datagram hdecode (hc.congr rfl rfl) hlast hs
  | handleTimer id =>
    cases id with
    | handshake =>
      have hsame : c.onHandshakeTimer now = c := by
        rw [onHandshakeTimer, if_pos (by simp [hup])]
      change (c.onHandshakeTimer now).Undrained
      rwa [hsame]
    | ack => exact hc.congr (onAckTimer_tx c now) (onAckTimer_inner c now).link
    | nak => exact hc.congr (onNakTimer_tx c now) (onNakTimer_inner c now).link
    | exp =>
      refine onExpTimer_undrained hc fun hclosing hqueue => ?_
      rw [Bool.eq_false_iff]
      exact fun hall => hlast ⟨hclosing, hqueue, rfl, hall⟩
    | tsbpd =>
      have h := deliverTsbpd_rxStep c now
      exact hc.congr h.tx h.link
    | sndPacing => exact pace_undrained P hc hs
    | linger =>
      change (c.onLingerTimer now).link.state = .connected at hs
      change (c.onLingerTimer now).Undrained
      unfold onLingerTimer at hs ⊢
      split at hs
      · rw [finalizeShutdown_link] at hs
        exact absurd hs (by simp)
      · next hopen =>
        rw [if_neg hopen]
        exact hc
    | keepalive => exact hc.congr (onKeepaliveTimer_tx c now) (onKeepaliveTimer_inner c now).link
    | peerIdle =>
      rcases onPeerIdleTimer_cases c now with h | ⟨-, h⟩
      · exact hc.congr (onPeerIdleTimer_linkStep c now).tx h.link
      · change (c.onPeerIdleTimer now).link.state = .connected at hs
        rw [h] at hs
        exact absurd hs (by simp [fail, clearArqTimers, event])
  | send payload => exact send_undrained P payload hc hs
  | close => exact close_undrained hc hs
  | provideRekey sek =>
    have h := provideRekey_keyStep P c sek now
    exact hc.congr h.tx h.link
  | pollEvent => exact hc.congr rfl rfl

/-- No close is pending before the handshake is over, nor when it ends. -/
theorem Opens.notClosing {call : Call} (h : Opens c call now c') (hopen : c.Opening) :
    c'.link.closing = false := by
  cases h with
  | waits h => exact (congrArg Link.closing h.link).trans hopen.closing
  | ended _ _ hc => exact hc.trans hopen.closing
  | concludes hs _ =>
    rw [sendConclusion, emitHandshake]
    split <;> exact hopen.closing
  | connects datagram ctrl hs _ _ _ _ _ _ =>
    simp only [enterConnected, event, output]
    exact hopen.closing

end Undrained

end Connection

namespace Session

/-- Between calls: a connection that waits for its handshake, or one that a close leaves something to
wait for. -/
structure Lingers (s : Session) : Prop where
  waiting : ¬ s.conn.Established → s.conn.Opening
  undrained : s.conn.link.state = .connected → s.conn.Undrained

theorem Lingers.step (P : Primitives) {s : Session} {input : Call × Instant} (h : s.Lingers)
    (hlast : ¬ s.conn.ShedsLast input.1 input.2) : (s.step P input).Lingers := by
  obtain ⟨call, now⟩ := input
  by_cases he : s.conn.Established
  · refine ⟨fun hn => absurd (Calling.established_step he) hn, fun hs => ?_⟩
    have hup := Calling.connected_before he hs
    exact (Connection.perform_undrained P call (h.undrained hup) hup hlast hs).congr rfl rfl
  · have hopen := h.waiting he
    have hopens := Connection.perform_opens P call now hopen he
    exact ⟨fun hn => ((hopens.frame hopen).2 hn).1.drained,
      fun _ hclosing => absurd (hclosing.symm.trans (hopens.notClosing hopen)) (by simp)⟩

theorem Started.lingers {P : Primitives} {s : Session} (h : Started P s) : s.Lingers := by
  have hvigilant := h.vigilant
  obtain ⟨c, now, hc, rfl⟩ := h.fresh
  exact ⟨fun he => (hvigilant.waiting he).1, fun _ hclosing => absurd (hclosing.symm.trans hc.closing) (by simp)⟩

/-- Along every run in which no loss report and no retransmission timeout sheds the last packets of a
closing connection, a connection that is up and closing still has something to wait for. -/
theorem closing_waits_for_data (P : Primitives) (s : Session) (hs : Started P s) (inputs : List (Call × Instant))
    (hkeeps : Runs.Meets (step P) (fun s input => ¬ s.conn.ShedsLast input.1 input.2) s inputs)
    (hup : (Runs.run (step P) s inputs).conn.link.state = .connected)
    (hclosing : (Runs.run (step P) s inputs).conn.link.closing = true) :
    (Runs.run (step P) s inputs).conn.tx.sendBuffer.isEmpty = false ∨
      (Runs.run (step P) s inputs).conn.tx.sendQueue ≠ [] := by
  have hrun : (Runs.run (step P) s inputs).Lingers :=
    Runs.invariant (fun _ _ h hlast => h.step P hlast) hs.lingers hkeeps
  exact hrun.undrained hup hclosing

/-- A message, a close, and a loss report while the message can still play. -/
def promptReport : List (Call × Instant) :=
  [(.send [1], 0), (.close, 0),
    (.feedRecvBuf ((encodeControl ⟨2⟩ ⟨0⟩ (.nak [⟨SeqNumber.new 0, SeqNumber.new 0⟩])).getD []),
      (Duration.fromSecs 1 : ℕ))]

theorem closing_waits_for_data_prompt :
    (Runs.run (step Primitives.absent) plainAcceptor promptReport).conn.tx.sendBuffer.isEmpty = false ∨
      (Runs.run (step Primitives.absent) plainAcceptor promptReport).conn.tx.sendQueue ≠ [] :=
  closing_waits_for_data Primitives.absent plainAcceptor plainAcceptor_started promptReport (by decide +kernel)
    (by decide +kernel) (by decide +kernel)

/-- The same message, and the retransmission timer two seconds later. -/
def lateTimeout : List (Call × Instant) :=
  [(.send [1], 0), (.close, 0), (.handleTimer .exp, (Duration.fromSecs 2 : ℕ))]

/-- The timeout sheds the message, and the connection stays up with nothing left to wait for. -/
theorem closing_waits_for_nothing :
    Started Primitives.absent plainAcceptor ∧ Config.default.validate = .ok () ∧
      Runs.Meets (step Primitives.absent) Legal plainAcceptor lateTimeout ∧
      (Runs.run (step Primitives.absent) plainAcceptor lateTimeout).conn.link.state = .connected ∧
      (Runs.run (step Primitives.absent) plainAcceptor lateTimeout).conn.link.closing = true ∧
      (Runs.run (step Primitives.absent) plainAcceptor lateTimeout).conn.tx.sendBuffer.isEmpty = true ∧
      (Runs.run (step Primitives.absent) plainAcceptor lateTimeout).conn.tx.sendQueue.isEmpty = true :=
  ⟨plainAcceptor_started, by decide +kernel, by decide +kernel, by decide +kernel, by decide +kernel,
    by decide +kernel, by decide +kernel⟩

end Session

end Srtrust
